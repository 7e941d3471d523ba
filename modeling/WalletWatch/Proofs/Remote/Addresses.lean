import Mathlib.Data.List.DropRight
import WalletWatch.Node.Basic
import WalletWatch.Proofs.Config.Rules

set_option autoImplicit false

/-!
# Addresses of peers

The address of a peer loses the slashes at its end. If anything else stands behind its scheme, calls
and streams go to the same place, each under its own scheme. If not, the slashes behind the scheme
go as well, and there is no place left.
-/

namespace WalletWatch

namespace Peer

/-- The schemes of web addresses, each with the scheme of sockets at the same place. -/
def schemes : List (String × String) := [("http", "ws"), ("https", "wss")]

/-- A peer is found at some place under a scheme of the web, and at the same place under the scheme
of sockets. So a single call and a stream for one path have the same authority and target. -/
def Usable (p : Peer) : Prop :=
  ∃ s ∈ schemes, ∃ place : String, place ≠ "" ∧ place.toList.getLast? ≠ some '/' ∧
    p.base = s.1 ++ "://" ++ place ∧ socketBase p.base = s.2 ++ "://" ++ place ∧
    ∀ path, ∃ authority target,
      Http.Address.split? (p.callUrl path).toList = some ⟨s.1, authority, target⟩ ∧
      Http.Address.split? (p.watchUrl path).toList = some ⟨s.2, authority, target⟩

/-! ## Slashes at the end -/

theorem toList_withoutSlashes (s : String) :
    (withoutSlashes s).toList = s.toList.rdropWhile (· = '/') := by
  rw [withoutSlashes, String.toList_ofList]
  rfl

/-- If anything but slashes stands behind a text, only slashes behind that are taken off. -/
theorem rdropWhile_append_of_exists {front rest : List Char} (h : ∃ c ∈ rest, c ≠ '/') :
    (front ++ rest).rdropWhile (· = '/') = front ++ rest.rdropWhile (· = '/') := by
  have left : ¬ (rest.reverse.dropWhile (· = '/')).isEmpty = true := by
    obtain ⟨c, mem, other⟩ := h
    intro empty
    rw [List.isEmpty_iff, List.dropWhile_eq_nil_iff] at empty
    exact other (by simpa using empty c (List.mem_reverse.mpr mem))
  rw [List.rdropWhile, List.rdropWhile, List.reverse_append, List.dropWhile_append, if_neg left,
    List.reverse_append, List.reverse_reverse]

theorem rdropWhile_append_of_forall {front rest : List Char} (h : ∀ c ∈ rest, c = '/') :
    (front ++ rest).rdropWhile (· = '/') = front.rdropWhile (· = '/') := by
  have gone : rest.reverse.dropWhile (· = '/') = [] := by
    rw [List.dropWhile_eq_nil_iff]
    intro c mem
    simpa using h c (List.mem_reverse.mp mem)
  rw [List.rdropWhile, List.rdropWhile, List.reverse_append, List.dropWhile_append, gone]
  rfl

theorem rdropWhile_ne_nil {rest : List Char} (h : ∃ c ∈ rest, c ≠ '/') :
    rest.rdropWhile (· = '/') ≠ [] := by
  intro empty
  rw [List.rdropWhile_eq_nil_iff] at empty
  obtain ⟨c, mem, other⟩ := h
  exact other (by simpa using empty c mem)

theorem getLast?_rdropWhile_ne (rest : List Char) :
    (rest.rdropWhile (· = '/')).getLast? ≠ some '/' := by
  intro last
  have nonempty : rest.rdropWhile (· = '/') ≠ [] := by
    intro empty
    rw [empty] at last
    cases last
  have solid := List.rdropWhile_last_not (· = '/') rest nonempty
  rw [List.getLast?_eq_some_getLast nonempty] at last
  exact solid (decide_eq_true (Option.some.inj last))

/-! ## Calls and streams -/

theorem mem_schemes_iff {s : String × String} :
    s ∈ schemes ↔ s = ("http", "ws") ∨ s = ("https", "wss") := by
  simp only [schemes, List.mem_cons, List.not_mem_nil, or_false]

theorem split?_web {s : String × String} (h : s ∈ schemes) {scheme : String}
    (either : scheme = s.1 ∨ scheme = s.2) (rest : List Char) :
    Http.Address.split? ((scheme ++ "://").toList ++ rest) =
      some ⟨scheme, String.ofList (rest.takeWhile (!Http.endsHost ·)),
        Http.Target.split (rest.dropWhile (!Http.endsHost ·))⟩ := by
  rcases mem_schemes_iff.mp h with rfl | rfl <;> rcases either with rfl | rfl <;> rfl

theorem socketBase_web {s : String × String} (h : s ∈ schemes) (place : String) :
    socketBase (s.1 ++ "://" ++ place) = s.2 ++ "://" ++ place := by
  have spelt : (s.1 ++ "://" ++ place).toList = (s.1 ++ "://").toList ++ place.toList :=
    String.toList_append
  rw [socketBase, spelt]
  rcases mem_schemes_iff.mp h with rfl | rfl
  · change "ws://" ++ String.ofList place.toList = "ws://" ++ place
    rw [String.ofList_toList]
  · change "wss://" ++ String.ofList place.toList = "wss://" ++ place
    rw [String.ofList_toList]

theorem usable_of_base {p : Peer} {s : String × String} {place : String} (known : s ∈ schemes)
    (nonempty : place ≠ "") (solid : place.toList.getLast? ≠ some '/')
    (base : p.base = s.1 ++ "://" ++ place) : p.Usable := by
  have socket : socketBase p.base = s.2 ++ "://" ++ place := by rw [base, socketBase_web known]
  refine ⟨s, known, place, nonempty, solid, base, socket, fun path => ?_⟩
  let asked := (place ++ path).toList
  refine ⟨String.ofList (asked.takeWhile (!Http.endsHost ·)),
    Http.Target.split (asked.dropWhile (!Http.endsHost ·)), ?_, ?_⟩
  · rw [callUrl, base, String.append_assoc, String.toList_append]
    exact split?_web known (.inl rfl) asked
  · rw [watchUrl, socket, String.append_assoc, String.toList_append]
    exact split?_web known (.inr rfl) asked

/-! ## Accepted addresses -/

/-- Something other than slashes stands behind the scheme of an address. -/
def NamesPlace (address : String) : Prop :=
  ∃ rest, Settings.behindScheme? address = some rest ∧ ∃ c ∈ rest, c ≠ '/'

theorem exists_mem_schemes {scheme : String} (h : scheme ∈ ["http", "https"]) :
    ∃ s ∈ schemes, s.1 = scheme := by
  simp only [List.mem_cons, List.not_mem_nil, or_false] at h
  rcases h with rfl | rfl
  · exact ⟨_, List.mem_cons_self, rfl⟩
  · exact ⟨_, List.mem_cons_of_mem _ List.mem_cons_self, rfl⟩

theorem toList_withoutSlashes_web (scheme : String) (rest : List Char) :
    (withoutSlashes (scheme ++ "://" ++ String.ofList rest)).toList =
      ((scheme ++ "://").toList ++ rest).rdropWhile (· = '/') := by
  rw [toList_withoutSlashes, String.toList_append, String.toList_ofList]

theorem usable_of_namesPlace {address : String} (h : NamesPlace address) (dialTimeout : Millis) :
    (ofAddress address dialTimeout).Usable := by
  obtain ⟨rest, behind, other⟩ := h
  obtain ⟨scheme, web, rfl⟩ := Settings.behindScheme?_eq_some_iff.mp behind
  obtain ⟨s, known, rfl⟩ := exists_mem_schemes web
  let place := String.ofList (rest.rdropWhile (· = '/'))
  have left : place.toList = rest.rdropWhile (· = '/') := String.toList_ofList
  have nonempty : place ≠ "" := by
    intro empty
    rw [empty] at left
    exact rdropWhile_ne_nil other left.symm
  have solid : place.toList.getLast? ≠ some '/' := by
    rw [left]
    exact getLast?_rdropWhile_ne rest
  have base : withoutSlashes (s.1 ++ "://" ++ String.ofList rest) = s.1 ++ "://" ++ place := by
    have spelt : (s.1 ++ "://" ++ place).toList = (s.1 ++ "://").toList ++ place.toList :=
      String.toList_append
    rw [← String.toList_inj, toList_withoutSlashes_web, rdropWhile_append_of_exists other, spelt,
      left]
  exact usable_of_base known nonempty solid base

/-- If only slashes stand behind the scheme, all of them are lost. -/
theorem base_of_slashes {s : String × String} (known : s ∈ schemes) {rest : List Char}
    (slashes : ∀ c ∈ rest, c = '/') (dialTimeout : Millis) :
    (ofAddress (s.1 ++ "://" ++ String.ofList rest) dialTimeout).base = s.1 ++ ":" := by
  change withoutSlashes (s.1 ++ "://" ++ String.ofList rest) = s.1 ++ ":"
  rw [← String.toList_inj, toList_withoutSlashes_web, rdropWhile_append_of_forall slashes]
  rcases mem_schemes_iff.mp known with rfl | rfl <;> decide

theorem not_usable_of_base {p : Peer} {s : String × String} (known : s ∈ schemes)
    (base : p.base = s.1 ++ ":") : ¬ p.Usable := by
  rintro ⟨t, other, place, -, -, spelt, -⟩
  rw [base, ← String.toList_inj, String.toList_append] at spelt
  rcases mem_schemes_iff.mp known with rfl | rfl <;>
    rcases mem_schemes_iff.mp other with rfl | rfl <;> simp at spelt

theorem base_of_not_namesPlace {address : String} (web : Settings.isWebAddress address = true)
    (h : ¬ NamesPlace address) (dialTimeout : Millis) :
    ∃ s ∈ schemes, (ofAddress address dialTimeout).base = s.1 ++ ":" := by
  cases behind : Settings.behindScheme? address with
  | none => simp [Settings.isWebAddress, behind] at web
  | some rest =>
    have slashes : ∀ c ∈ rest, c = '/' := by
      intro c mem
      by_contra other
      exact h ⟨rest, behind, c, mem, other⟩
    obtain ⟨scheme, known, rfl⟩ := Settings.behindScheme?_eq_some_iff.mp behind
    obtain ⟨s, mem, rfl⟩ := exists_mem_schemes known
    exact ⟨s, mem, base_of_slashes mem slashes dialTimeout⟩

theorem usable_iff_namesPlace {address : String} (web : Settings.isWebAddress address = true)
    (dialTimeout : Millis) : (ofAddress address dialTimeout).Usable ↔ NamesPlace address := by
  constructor
  · intro usable
    by_contra h
    obtain ⟨s, known, base⟩ := base_of_not_namesPlace web h dialTimeout
    exact not_usable_of_base known base usable
  · exact fun h => usable_of_namesPlace h dialTimeout

end Peer

namespace Settings

open Peer (NamesPlace)

/-- The services that settings have a process ask are found at these addresses. -/
def Asks (s : Settings) (address : String) : Prop :=
  (s.role.asksAccount = true ∧ address = s.peers.accountServer) ∨
    (s.role.asksPrice = true ∧ address = s.peers.priceServer)

theorem isWebAddress_of_asks {s : Settings} (kept : ∀ r : Rule, r.Kept s) {address : String}
    (h : s.Asks address) : isWebAddress address = true := by
  rcases h with ⟨asked, rfl⟩ | ⟨asked, rfl⟩
  · refine isWebAddress_iff.mpr (kept .accountServer ?_)
    cases role : s.role with
    | account =>
      rw [role] at asked
      cases asked
    | price => exact .inl rfl
    | wallet => exact .inr rfl
  · refine isWebAddress_iff.mpr (kept .priceServer ?_)
    cases role : s.role with
    | account | price =>
      rw [role] at asked
      cases asked
    | wallet => rfl

theorem kept_of_load {parse : String → Except String Yaml.Node} {text : String} {s : Settings}
    (h : load text parse = .ok s) : ∀ r : Rule, r.Kept s := by
  unfold load at h
  split at h
  · cases h
  · exact (ofNode_eq_ok_iff.mp h).2

/-- Every accepted address is usable, for calls and streams alike, except for those with nothing but
slashes behind the scheme: of these the scheme alone is left. The addresses that a process asks are
among the accepted ones, however its settings are parsed. -/
theorem accepted_addresses_are_usable (address : String) :
    (isWebAddress address = true → ∀ dialTimeout,
      ((Peer.ofAddress address dialTimeout).Usable ↔ NamesPlace address) ∧
      (¬ NamesPlace address →
        ∃ s ∈ Peer.schemes, (Peer.ofAddress address dialTimeout).base = s.1 ++ ":")) ∧
    ∀ parse text s, load text parse = .ok s → s.Asks address →
      isWebAddress address = true ∧
      ∀ network, (Node.clientOf network s address).peer.Usable ↔ NamesPlace address := by
  constructor
  · intro web dialTimeout
    exact ⟨Peer.usable_iff_namesPlace web dialTimeout,
      fun h => Peer.base_of_not_namesPlace web h dialTimeout⟩
  · intro parse text s loaded asked
    have web := isWebAddress_of_asks (kept_of_load loaded) asked
    exact ⟨web, fun _ => Peer.usable_iff_namesPlace web _⟩

/-- A text of settings for the price service, with the address of the account service. -/
def priceText (address : String) : String :=
  "version: 1\nrole: price\nupstream:\n  account_server: \"" ++ address ++ "\"\n"

theorem trailing_slashes_are_usable :
    (Peer.ofAddress "https://accounts:8443/base//" 5000).Usable ∧
    ∃ s, load (priceText "https://accounts:8443/base//") = .ok s ∧
      (Node.clientOf Network.unreachable s s.peers.accountServer).peer.Usable := by
  have place : NamesPlace "https://accounts:8443/base//" :=
    ⟨"accounts:8443/base//".toList, by decide +kernel, 'a', by decide +kernel, by decide⟩
  have usable := accepted_addresses_are_usable "https://accounts:8443/base//"
  refine ⟨(usable.1 (by decide +kernel) 5000).1.mpr place, ?_⟩
  have loaded : load (priceText "https://accounts:8443/base//") = .ok ⟨1, .price, {},
      { accountServer := "https://accounts:8443/base//" }, false, false⟩ := by decide +kernel
  have asked := usable.2 _ _ _ loaded (.inl ⟨rfl, rfl⟩)
  exact ⟨_, loaded, (asked.2 _).mpr place⟩

theorem slashes_alone_are_accepted :
    ∃ s, load (priceText "http:///") = .ok s ∧ s.Asks "http:///" ∧
      (Node.clientOf Network.unreachable s "http:///").peer.base = "http:" ∧
      ¬ (Node.clientOf Network.unreachable s "http:///").peer.Usable := by
  have loaded : load (priceText "http:///") =
      .ok ⟨1, .price, {}, { accountServer := "http:///" }, false, false⟩ := by decide +kernel
  have base : Peer.withoutSlashes "http:///" = "http" ++ ":" := by decide +kernel
  exact ⟨_, loaded, .inl ⟨rfl, rfl⟩, base, Peer.not_usable_of_base List.mem_cons_self base⟩

end Settings

end WalletWatch
