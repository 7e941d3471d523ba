import WalletWatch.Remote.Peer

set_option autoImplicit false

/-!
# Addresses of sockets

A web address that names a host well is an address for sockets too, whatever path is asked for
there.
-/

namespace WalletWatch

namespace Http

/-- A text that names a host, short enough to leave room for a path. -/
structure NamesHost (host : String) : Prop where
  form : checkAuthority host.toList = .ok ()
  nonempty : host.toList ≠ []
  whole : host.toList.all (!endsHost ·) = true
  short : host.utf8ByteSize ≤ 65000

/-- A target that starts with a slash and needs no encoding. -/
structure NamesPath (path : String) : Prop where
  front : path.toList.head? = some '/'
  encoded : (Target.split path.toList).isEncoded = true
  short : path.utf8ByteSize ≤ 500

theorem takeWhile_host {host path : List Char} (whole : host.all (!endsHost ·) = true)
    (front : path.head? = some '/') :
    (host ++ path).takeWhile (!endsHost ·) = host ∧
      (host ++ path).dropWhile (!endsHost ·) = path := by
  have inside : ∀ c ∈ host, (!endsHost c) = true := List.all_eq_true.mp whole
  have outside : path.takeWhile (!endsHost ·) = [] ∧ path.dropWhile (!endsHost ·) = path := by
    cases path with
    | nil => exact ⟨rfl, rfl⟩
    | cons c path =>
      cases front
      exact ⟨rfl, rfl⟩
  rw [List.takeWhile_append_of_pos inside, List.dropWhile_append_of_pos inside, outside.1,
    outside.2, List.append_nil]
  exact ⟨rfl, rfl⟩

theorem split?_socket (rest : List Char) : Address.split? ("ws://".toList ++ rest) =
    some ⟨"ws", String.ofList (rest.takeWhile (!endsHost ·)),
      Target.split (rest.dropWhile (!endsHost ·))⟩ := rfl

theorem isOk_check {host path : String} (h : NamesHost host) (p : NamesPath path) :
    Address.check ⟨"ws", host, Target.split path.toList⟩ = .ok () := by
  have scheme : ¬ Address.maxScheme < "ws".length := by decide
  have named : host.isEmpty = false := by
    rw [Bool.eq_false_iff]
    intro empty
    exact h.nonempty (String.toList_eq_nil_iff.mpr (String.isEmpty_iff.mp empty))
  simp only [Address.check, scheme, h.form, named, p.encoded]
  rfl

theorem isOk_parse {host path : String} (h : NamesHost host) (p : NamesPath path) :
    (Address.parse ("ws://" ++ host ++ path)).isOk = true := by
  have size : ¬ Address.maxSize < ("ws://" ++ host ++ path).utf8ByteSize := by
    have front : "ws://".utf8ByteSize = 5 := rfl
    have shortHost := h.short
    have shortPath := p.short
    rw [String.utf8ByteSize_append, String.utf8ByteSize_append, front, Address.maxSize]
    omega
  obtain ⟨front, behind⟩ := takeWhile_host h.whole p.front
  have split : Address.split? ("ws://" ++ host ++ path).toList =
      some ⟨"ws", host, Target.split path.toList⟩ := by
    rw [String.toList_append, String.toList_append, List.append_assoc, split?_socket, front, behind,
      String.ofList_toList]
  simp only [Address.parse, size, split, isOk_check h p, if_false]
  rfl

end Http

namespace Peer

open Http (NamesHost NamesPath)

theorem withoutSlashes_web {host : String} (h : NamesHost host) :
    withoutSlashes ("http://" ++ host) = "http://" ++ host := by
  have last : ("http://" ++ host).toList.getLast? = host.toList.getLast? := by
    rw [String.toList_append, List.getLast?_append]
    cases found : host.toList.getLast? with
    | none => exact absurd (List.getLast?_eq_none_iff.mp found) h.nonempty
    | some c => rfl
  have solid : ∀ c ∈ ("http://" ++ host).toList.getLast?, c ≠ '/' := by
    intro c hc
    rw [last] at hc
    rintro rfl
    exact absurd (List.all_eq_true.mp h.whole _ (List.mem_of_getLast? hc)) (by decide)
  have kept : ("http://" ++ host).toList.reverse.dropWhile (· = '/') =
      ("http://" ++ host).toList.reverse := by
    rw [← List.head?_reverse] at solid
    cases turned : ("http://" ++ host).toList.reverse with
    | nil => rfl
    | cons c rest =>
      rw [turned] at solid
      have other := solid c rfl
      simp [other]
  rw [withoutSlashes, kept, List.reverse_reverse, String.ofList_toList]

theorem watchUrl_web {host : String} (h : NamesHost host) (dialTimeout : Millis) (path : String) :
    (ofAddress ("http://" ++ host) dialTimeout).watchUrl path = "ws://" ++ host ++ path := by
  change socketBase (withoutSlashes ("http://" ++ host)) ++ path = _
  rw [withoutSlashes_web h]
  have socket : socketBase ("http://" ++ host) = "ws://" ++ host := by
    have base : ("http://" ++ host).toList = "http://".toList ++ host.toList :=
      String.toList_append
    rw [socketBase, base]
    change "ws://" ++ String.ofList host.toList = _
    rw [String.ofList_toList]
  rw [socket]

end Peer

end WalletWatch
