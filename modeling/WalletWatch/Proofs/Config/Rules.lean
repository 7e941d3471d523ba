import WalletWatch.Proofs.Config.Settings

set_option autoImplicit false

/-!
# The rules of settings

Settings keep five rules, which are looked at in order. They are accepted if they keep all of them,
and refused for the first that they break.
-/

namespace WalletWatch.Settings

/-! ## Web addresses -/

/-- A web address with something behind its scheme. -/
def IsWebAddress (url : String) : Prop :=
  ∃ scheme ∈ ["http", "https"], ∃ rest, rest ≠ "" ∧ url = scheme ++ "://" ++ rest

theorem behindScheme?_eq_some_iff {url : String} {cs : List Char} :
    behindScheme? url = some cs ↔
      ∃ scheme ∈ ["http", "https"], url = scheme ++ "://" ++ String.ofList cs := by
  have spelt : ∀ scheme, url = scheme ++ "://" ++ String.ofList cs ↔
      url.toList = scheme.toList ++ "://".toList ++ cs := by
    intro scheme
    rw [← String.toList_inj, String.toList_append, String.toList_ofList, String.toList_append]
  simp only [List.mem_cons, List.not_mem_nil, or_false, spelt, exists_eq_or_imp, exists_eq_left]
  constructor
  · intro h
    unfold behindScheme? at h
    split at h
    · rename_i front
      cases h
      exact .inl front
    · rename_i front
      cases h
      exact .inr front
    · cases h
  · intro h
    unfold behindScheme?
    rcases h with h | h
    · rw [h]
      rfl
    · rw [h]
      rfl

theorem isWebAddress_iff {url : String} : isWebAddress url = true ↔ IsWebAddress url := by
  unfold isWebAddress
  rw [Option.any_eq_true]
  constructor
  · rintro ⟨cs, behind, nonempty⟩
    obtain ⟨scheme, mem, rfl⟩ := behindScheme?_eq_some_iff.mp behind
    refine ⟨scheme, mem, String.ofList cs, ?_, rfl⟩
    rintro same
    have empty : cs = [] := by simpa using congrArg String.toList same
    simp [empty] at nonempty
  · rintro ⟨scheme, mem, rest, nonempty, rfl⟩
    refine ⟨rest.toList, behindScheme?_eq_some_iff.mpr ⟨scheme, mem, ?_⟩, ?_⟩
    · rw [String.ofList_toList]
    · simpa using nonempty

/-! ## Rules -/

inductive Rule where
  | version
  | listen
  | dialTimeout
  | accountServer
  | priceServer

namespace Rule

/-- The rules in the order in which they are looked at. -/
def inOrder : List Rule := [version, listen, dialTimeout, accountServer, priceServer]

/-- The addresses of other services have to be web addresses where the role asks them. -/
def Kept (s : Settings) : Rule → Prop
  | version => s.version = 1
  | listen => ∃ a, SocketAddress.parse? s.server.listen = some a
  | dialTimeout => 100 ≤ s.peers.dialTimeout ∧ s.peers.dialTimeout ≤ 60000
  | accountServer => s.role = .price ∨ s.role = .wallet → IsWebAddress s.peers.accountServer
  | priceServer => s.role = .wallet → IsWebAddress s.peers.priceServer

/-- What is said of settings that break a rule. -/
def message (s : Settings) : Rule → String
  | version => "unsupported config version " ++ IpAddress.natText s.version
  | listen => "server.listen must be a socket address: invalid socket address syntax"
  | dialTimeout => "upstream.dial_timeout_ms must be between 100 and 60000"
  | accountServer => "upstream.account_server must be an http:// or https:// url"
  | priceServer => "upstream.price_server must be an http:// or https:// url"

end Rule

instance (s : Settings) : DecidablePred (Rule.Kept s)
  | .version => inferInstanceAs (Decidable (s.version = 1))
  | .listen => decidable_of_iff ((SocketAddress.parse? s.server.listen).isSome = true)
      Option.isSome_iff_exists
  | .dialTimeout => inferInstanceAs (Decidable (_ ∧ _))
  | .accountServer =>
    have : Decidable (IsWebAddress s.peers.accountServer) := decidable_of_iff _ isWebAddress_iff
    inferInstanceAs (Decidable (_ → _))
  | .priceServer =>
    have : Decidable (IsWebAddress s.peers.priceServer) := decidable_of_iff _ isWebAddress_iff
    inferInstanceAs (Decidable (_ → _))

namespace Rule

/-- Look at one rule. -/
def judge (s : Settings) (r : Rule) : Item Unit :=
  if r.Kept s then .ok () else .error ⟨.invalidArgument, r.message s⟩

variable {s : Settings} {r : Rule}

theorem judge_of_kept (h : r.Kept s) : r.judge s = .ok () := if_pos h

theorem judge_of_broken (h : ¬ r.Kept s) :
    r.judge s = .error ⟨.invalidArgument, r.message s⟩ := if_neg h

/-- Rules that are all kept let pass; otherwise the first broken one decides. -/
theorem forM_judge_eq_ok_iff (rules : List Rule) :
    rules.forM (judge s) = .ok () ↔ ∀ r ∈ rules, r.Kept s := by
  induction rules with
  | nil => exact ⟨nofun, fun _ => rfl⟩
  | cons r rules ih =>
    rw [List.forall_mem_cons, ← ih]
    by_cases kept : r.Kept s
    · have passed : (r :: rules).forM (judge s) = rules.forM (judge s) := by
        change (judge s r >>= fun _ => rules.forM (judge s)) = _
        rw [judge_of_kept kept]
        rfl
      rw [passed]
      exact ⟨fun rest => ⟨kept, rest⟩, And.right⟩
    · have stopped : (r :: rules).forM (judge s) = .error ⟨.invalidArgument, r.message s⟩ := by
        change (judge s r >>= fun _ => rules.forM (judge s)) = _
        rw [judge_of_broken kept]
        rfl
      rw [stopped]
      exact ⟨nofun, fun both => absurd both.1 kept⟩

theorem forM_judge_of_first_broken {front : List Rule} (back : List Rule)
    (kept : ∀ q ∈ front, q.Kept s) (broken : ¬ r.Kept s) :
    (front ++ r :: back).forM (judge s) = .error ⟨.invalidArgument, r.message s⟩ := by
  induction front with
  | nil =>
    change (judge s r >>= fun _ => back.forM (judge s)) = _
    rw [judge_of_broken broken]
    rfl
  | cons q front ih =>
    obtain ⟨first, kept⟩ := List.forall_mem_cons.mp kept
    change (judge s q >>= fun _ => (front ++ r :: back).forM (judge s)) = _
    rw [judge_of_kept first]
    exact ih kept

theorem code_of_forM_judge {rules : List Rule} {f : Failure}
    (h : rules.forM (judge s) = .error f) : f.code = .invalidArgument := by
  induction rules with
  | nil => cases h
  | cons r rules ih =>
    change (judge s r >>= fun _ => rules.forM (judge s)) = _ at h
    by_cases kept : r.Kept s
    · rw [judge_of_kept kept] at h
      exact ih h
    · rw [judge_of_broken kept] at h
      cases h
      rfl

/-! ### Each rule in turn -/

theorem judge_version (k : Item Unit) :
    (if s.version ≠ 1 then do throw ⟨.invalidArgument, version.message s⟩; k else k) =
      (do version.judge s; k) := by
  by_cases h : s.version = 1
  · have kept : version.Kept s := h
    rw [if_neg (not_not_intro h), judge_of_kept kept]
    rfl
  · have broken : ¬ version.Kept s := h
    rw [if_pos h, judge_of_broken broken]
    rfl

theorem judge_listen (k : Item Unit) :
    (do let _ ← s.listenAddress; k) = (do listen.judge s; k) := by
  unfold listenAddress
  cases parsed : SocketAddress.parse? s.server.listen with
  | some a =>
    have kept : listen.Kept s := ⟨a, parsed⟩
    rw [judge_of_kept kept]
    rfl
  | none =>
    have broken : ¬ listen.Kept s := fun ⟨a, h⟩ => nomatch parsed.symm.trans h
    rw [judge_of_broken broken]
    rfl

theorem judge_dialTimeout (k : Item Unit) :
    (if s.peers.dialTimeout < 100 ∨ 60000 < s.peers.dialTimeout then do
      throw ⟨.invalidArgument, dialTimeout.message s⟩; k else k) =
      (do dialTimeout.judge s; k) := by
  by_cases h : dialTimeout.Kept s
  · have inside : ¬ (s.peers.dialTimeout < 100 ∨ 60000 < s.peers.dialTimeout) := by
      obtain ⟨low, high⟩ := h
      omega
    rw [if_neg inside, judge_of_kept h]
    rfl
  · have outside : s.peers.dialTimeout < 100 ∨ 60000 < s.peers.dialTimeout := by
      by_contra inside
      exact h ⟨by omega, by omega⟩
    rw [if_pos outside, judge_of_broken h]
    rfl

theorem judge_address {asks : Bool} {key url : String} (k : Item Unit)
    (kept : r.Kept s ↔ (asks = true → IsWebAddress url))
    (said : r.message s = key ++ " must be an http:// or https:// url") :
    (if asks = true then do requireWebAddress key url; k else k) = (do r.judge s; k) := by
  by_cases h : r.Kept s
  · rw [judge_of_kept h]
    by_cases asked : asks = true
    · rw [if_pos asked, requireWebAddress, if_pos (isWebAddress_iff.mpr (kept.mp h asked))]
    · rw [if_neg asked]
      rfl
  · have asked : asks = true := by
      by_contra silent
      exact h (kept.mpr fun asked => absurd asked silent)
    have other : ¬ isWebAddress url = true := fun web =>
      h (kept.mpr fun _ => isWebAddress_iff.mp web)
    rw [judge_of_broken h, if_pos asked, requireWebAddress, if_neg other, said]

theorem judge_accountServer (k : Item Unit) :
    (if s.role.asksAccount = true then do
      requireWebAddress "upstream.account_server" s.peers.accountServer; k else k) =
      (do accountServer.judge s; k) := by
  refine judge_address k ?_ rfl
  have asked : s.role.asksAccount = true ↔ s.role = .price ∨ s.role = .wallet := by
    cases s.role <;> decide
  rw [asked]
  rfl

theorem judge_priceServer :
    (if s.role.asksPrice = true then
      requireWebAddress "upstream.price_server" s.peers.priceServer else pure ()) =
      priceServer.judge s := by
  have asked : s.role.asksPrice = true ↔ s.role = .wallet := by
    cases s.role <;> decide
  have kept : priceServer.Kept s ↔
      (s.role.asksPrice = true → IsWebAddress s.peers.priceServer) := by
    rw [asked]
    rfl
  have said : priceServer.message s =
    "upstream.price_server" ++ " must be an http:// or https:// url" := rfl
  have judged := judge_address (pure ()) kept said
  rw [bind_pure_unit, bind_pure_unit] at judged
  exact judged

end Rule

theorem check_eq (s : Settings) : s.check = Rule.inOrder.forM (Rule.judge s) := by
  have last : (do Rule.priceServer.judge s; pure ()) = Rule.priceServer.judge s := bind_pure_unit
  change s.check = do
    Rule.version.judge s
    Rule.listen.judge s
    Rule.dialTimeout.judge s
    Rule.accountServer.judge s
    Rule.priceServer.judge s
    pure ()
  rw [last, ← Rule.judge_version, ← Rule.judge_listen, ← Rule.judge_dialTimeout,
    ← Rule.judge_accountServer, ← Rule.judge_priceServer]
  rfl

/-! ## Loading -/

theorem ofNode_of_describes {n : Yaml.Node} {s : Settings} (h : Describes n s) :
    ofNode n = (Rule.inOrder.forM (Rule.judge s)).map fun _ => s := by
  rw [ofNode, ofNode?_eq_some_iff.mpr h, ← check_eq]

theorem ofNode_eq_ok_iff {n : Yaml.Node} {s : Settings} :
    ofNode n = .ok s ↔ Describes n s ∧ ∀ r : Rule, r.Kept s := by
  have all : (∀ r ∈ Rule.inOrder, r.Kept s) ↔ ∀ r : Rule, r.Kept s := by
    refine ⟨fun h r => h r ?_, fun h r _ => h r⟩
    cases r <;> simp [Rule.inOrder]
  rw [← all, ← Rule.forM_judge_eq_ok_iff]
  constructor
  · intro made
    cases read : ofNode? n with
    | none =>
      rw [ofNode, read] at made
      cases made
    | some t =>
      have described := ofNode?_eq_some_iff.mp read
      rw [ofNode_of_describes described] at made
      cases judged : Rule.inOrder.forM (Rule.judge t) with
      | error f =>
        rw [judged] at made
        cases made
      | ok _ =>
        rw [judged] at made
        cases made
        exact ⟨described, judged⟩
  · rintro ⟨described, judged⟩
    rw [ofNode_of_describes described, judged]
    rfl

theorem code_of_ofNode {n : Yaml.Node} {f : Failure} (h : ofNode n = .error f) :
    f.code = .invalidArgument := by
  cases read : ofNode? n with
  | none =>
    rw [ofNode, read] at h
    cases h
    rfl
  | some s =>
    rw [ofNode_of_describes (ofNode?_eq_some_iff.mp read)] at h
    cases judged : Rule.inOrder.forM (Rule.judge s) with
    | ok _ =>
      rw [judged] at h
      cases h
    | error g =>
      rw [judged] at h
      cases h
      exact Rule.code_of_forM_judge judged

theorem ofNode_congr {n n' : Yaml.Node} (h : ∀ s, Describes n s ↔ Describes n' s) :
    ofNode n = ofNode n' := by
  have same : ofNode? n = ofNode? n' := by
    refine Option.ext fun s => ?_
    exact ofNode?_eq_some_iff.trans ((h s).trans ofNode?_eq_some_iff.symm)
  rw [ofNode, ofNode, same]

/-- The entries of a document stand in another order, or those of one of its sections. -/
inductive Rearranged : Yaml.Node → Yaml.Node → Prop where
  | document {tag? : Option String} {es es' : List Entry} (perm : es.Perm es') :
      Rearranged (.map tag? es) (.map tag? es')
  | inside {tag? tag'? : Option String} {front back vs vs' : List Entry} {k : Yaml.Node}
      (perm : vs.Perm vs') :
      Rearranged (.map tag? (front ++ (k, .map tag'? vs) :: back))
        (.map tag? (front ++ (k, .map tag'? vs') :: back))

theorem Rearranged.ofNode_eq {n n' : Yaml.Node} (h : Rearranged n n') : ofNode n = ofNode n' := by
  refine ofNode_congr fun s => ?_
  cases h with
  | document perm => exact ⟨fun h => h.perm perm, fun h => h.perm perm.symm⟩
  | inside perm => exact ⟨fun h => h.perm_section perm, fun h => h.perm_section perm.symm⟩

/-- A document loads exactly as the settings it describes, if they keep every rule. Then there is an
address to listen on. Otherwise it is an invalid argument, and settings are refused for the first
rule that they break. The order of entries is of no account. However texts are parsed, a text loads
as its document, and not at all where it has none. -/
theorem documents_load_strictly (n : Yaml.Node) :
    (∀ s, ofNode n = .ok s ↔ Describes n s ∧ ∀ r : Rule, r.Kept s) ∧
    (∀ s, ofNode n = .ok s → ∃ a, s.listenAddress = .ok a) ∧
    (∀ f, ofNode n = .error f → f.code = .invalidArgument) ∧
    (∀ s front r back, Describes n s → Rule.inOrder = front ++ r :: back →
      (∀ q ∈ front, q.Kept s) → ¬ r.Kept s → ofNode n = .error ⟨.invalidArgument, r.message s⟩) ∧
    (∀ n', Rearranged n n' → ofNode n = ofNode n') ∧
    ∀ (parse : String → Except String Yaml.Node) text,
      (parse text = .ok n → load text parse = ofNode n) ∧
      ∀ reason, parse text = .error reason →
        load text parse = .error ⟨.invalidArgument, "invalid yaml: " ++ reason⟩ := by
  refine ⟨fun s => ofNode_eq_ok_iff, fun s loaded => ?_, fun f => code_of_ofNode, ?_,
    fun n' => Rearranged.ofNode_eq, fun parse text => ⟨fun parsed => ?_, fun reason refused => ?_⟩⟩
  · obtain ⟨a, parsed⟩ := (ofNode_eq_ok_iff.mp loaded).2 .listen
    exact ⟨a, by rw [listenAddress, parsed]⟩
  · intro s front r back described order kept broken
    rw [ofNode_of_describes described, order, Rule.forM_judge_of_first_broken back kept broken]
    rfl
  · rw [load, parsed]
  · rw [load, refused]

/-- Sections in no particular order, one of them with nothing behind its colon, and a role that is
given as a tag. -/
def scantWallet (listen dialTimeout : String) : Yaml.Node :=
  let word (s : String) : Yaml.Node := .scalar none .plain s
  let entries (es : List (Yaml.Node × Yaml.Node)) : Yaml.Node := .map none es
  entries
    [(word "wallet", entries [(word "v1_behavior", word "True")]), (word "price", .empty),
      (word "upstream", entries [(word "dial_timeout_ms", word dialTimeout)]),
      (.scalar none .quoted "role", .scalar (some "!wallet") .plain ""), (word "version", word "1"),
      (word "server", entries [(word "listen", .scalar none .literal listen)])]

/-- The same as a text. -/
def scantText : String :=
  "wallet:\n  v1_behavior: True\nprice:\nupstream:\n  dial_timeout_ms: &ms +0x7D0\n" ++
    "\"role\": !wallet\n? version\n: 1\nserver:\n  listen: |-\n    [::1]:80\n"

def scantSettings (listen : String) (dialTimeout : Nat) : Settings :=
  ⟨1, .wallet, ⟨listen, ""⟩, ⟨"http://localhost:18883", "http://localhost:18882", dialTimeout⟩,
    false, true⟩

theorem scant_wallet_loads :
    ofNode (scantWallet "[::1]:80" "+0x7D0") = .ok (scantSettings "[::1]:80" 2000) ∧
    ofNode (scantWallet "localhost" "0x3C") = .error ⟨.invalidArgument,
      "server.listen must be a socket address: invalid socket address syntax"⟩ ∧
    load scantText = .ok (scantSettings "[::1]:80" 2000) ∧
    load "[" = .error ⟨.invalidArgument, "invalid yaml: not a document"⟩ := by
  refine ⟨?_, ?_, ?_, ?_⟩
  · refine ((documents_load_strictly _).1 _).mpr ⟨ofNode?_eq_some_iff.mp (by decide +kernel), ?_⟩
    intro r
    cases r <;> decide +kernel
  · have read : ofNode? (scantWallet "localhost" "0x3C") = some (scantSettings "localhost" 60) := by
      decide +kernel
    obtain ⟨-, -, -, first, -⟩ := documents_load_strictly (scantWallet "localhost" "0x3C")
    refine first _ [.version] .listen _ (ofNode?_eq_some_iff.mp read) rfl ?_ (by decide +kernel)
    intro q mem
    cases List.mem_singleton.mp mem
    rfl
  · have read : (Yaml.read scantText).toOption.bind ofNode? =
        some (scantSettings "[::1]:80" 2000) := by
      decide +kernel
    cases parsed : Yaml.read scantText with
    | error _ =>
      rw [parsed] at read
      cases read
    | ok n =>
      rw [parsed] at read
      obtain ⟨loads, -, -, -, -, texts⟩ := documents_load_strictly n
      rw [(texts Yaml.read scantText).1 parsed]
      refine (loads _).mpr ⟨ofNode?_eq_some_iff.mp read, ?_⟩
      intro r
      cases r <;> decide +kernel
  · have refused : Yaml.read "[" = .error "not a document" := by rfl
    exact ((documents_load_strictly .empty).2.2.2.2.2 Yaml.read _).2 _ refused

end WalletWatch.Settings
