import WalletWatch.Proofs.Config.Sections

set_option autoImplicit false

/-!
# What settings a document describes

A document describes settings if each section is well-formed and says them under its keys. It is
read as the settings that it describes, and not read if it describes none. The order of its entries
and of those of its sections is of no account.
-/

namespace WalletWatch.Settings

/-! ## Sections of settings -/

/-- A section with certain keys, which tells something. -/
def IsSection {σ : Type} (known : List String) (Tells : List Entry → σ → Prop) (n : Yaml.Node)
    (s : σ) : Prop :=
  ∃ es, Lists n es ∧ Keyed known es ∧ Tells es s

structure TellsServer (es : List Entry) (s : ServerSettings) : Prop where
  listen : Says es "listen" IsText (some "0.0.0.0:18881") s.listen
  hostnameSuffix : Says es "hostname_suffix" IsText (some "") s.hostnameSuffix

structure TellsPeers (es : List Entry) (s : PeerSettings) : Prop where
  accountServer : Says es "account_server" IsText (some "http://localhost:18883") s.accountServer
  priceServer : Says es "price_server" IsText (some "http://localhost:18882") s.priceServer
  dialTimeout : Says es "dial_timeout_ms" (IsNumber 18446744073709551616) (some 5000) s.dialTimeout

/-- A flag is off unless it is switched on. -/
def TellsFlag (name : String) (es : List Entry) (b : Bool) : Prop :=
  Says es name IsTruth (some false) b

def serverKeys : List String := ["listen", "hostname_suffix"]

def peerKeys : List String := ["account_server", "price_server", "dial_timeout_ms"]

def IsServer : Yaml.Node → ServerSettings → Prop := IsSection serverKeys TellsServer

def IsPeers : Yaml.Node → PeerSettings → Prop := IsSection peerKeys TellsPeers

def IsFlag (name : String) : Yaml.Node → Bool → Prop := IsSection [name] (TellsFlag name)

/-- The sections of a document, and the two keys that have no default. -/
structure Tells (es : List Entry) (s : Settings) : Prop where
  version : Says es "version" (IsNumber 4294967296) none s.version
  role : Says es "role" IsRole none s.role
  server : Says es "server" IsServer (some ⟨"0.0.0.0:18881", ""⟩) s.server
  peers : Says es "upstream" IsPeers
    (some ⟨"http://localhost:18883", "http://localhost:18882", 5000⟩) s.peers
  premiumOnly : Says es "price" (IsFlag "premium_only") (some false) s.premiumOnly
  v1Behavior : Says es "wallet" (IsFlag "v1_behavior") (some false) s.v1Behavior

/-- The keys of a document. -/
def documentKeys : List String := ["version", "role", "server", "upstream", "price", "wallet"]

/-- A map with the keys of a document that tells settings. -/
def Describes (n : Yaml.Node) (s : Settings) : Prop :=
  ∃ tag? es, n = .map tag? es ∧ Keyed documentKeys es ∧ Tells es s

/-! ### Reading them -/

section Reading

variable {σ : Type} {put : σ → String → Yaml.Node → Option σ} {start : σ} {known : List String}
  {Says' : List Entry → σ → Prop}

/-- A section is read as what it tells, if that is all there is to it. -/
theorem section?_eq_some_iff_isSection
    (knows : ∀ {s key v t}, put s key v = some t → key ∈ known)
    (told_of_fill : ∀ {es t}, fill put start [] es = some t → Says' es t)
    (takes : ∀ {es t}, Says' es t → es.Pairwise Apart → ∀ key ∈ known, ∀ e ∈ es, IsText e.1 key →
      ∀ s, ∃ t, put s key e.2 = some t)
    (unique : ∀ {es t t'}, Says' es t → Says' es t' → es.Pairwise Apart → t = t') {n : Yaml.Node}
    {s : σ} : section? put start n = some s ↔ IsSection known Says' n s := by
  rw [section?_eq_some_iff]
  refine exists_congr fun es => and_congr_right fun _ => ⟨fun h => ?_, fun ⟨keyed, told⟩ => ?_⟩
  · exact ⟨⟨known_of_fill knows h, (apart_of_fill h).2⟩, told_of_fill h⟩
  · have taken : ∀ e ∈ es, ∃ key, IsText e.1 key ∧ ∀ s, ∃ t, put s key e.2 = some t := by
      intro e here
      obtain ⟨key, mem, named⟩ := keyed.known e here
      exact ⟨key, named, takes told keyed.apart key mem e here named⟩
    have fresh : ∀ e ∈ es, ∀ key ∈ ([] : List String), ¬ IsText e.1 key := by simp
    obtain ⟨t, made⟩ := exists_fill keyed.apart fresh taken start
    rw [made, unique (told_of_fill made) told keyed.apart]

theorem Slot.takesHere {β : Type} {key : String} {Is : Yaml.Node → β → Prop} {part : σ → β}
    (slot : Slot put key Is part) {es : List Entry} {default? : Option β} {b : β}
    (said : Says es key Is default? b) (apart : es.Pairwise Apart) {e : Entry} (here : e ∈ es)
    (named : IsText e.1 key) (s : σ) : ∃ t, put s key e.2 = some t :=
  slot.takes s (said.stands apart here named)

end Reading

theorem putServer_known {s t : ServerSettings} {key : String} {v : Yaml.Node}
    (h : putServer s key v = some t) : key ∈ serverKeys := by
  unfold putServer at h
  split at h <;> first | cases h | simp [serverKeys]

theorem putServer_keeps {s t : ServerSettings} {key : String} {v : Yaml.Node}
    (h : putServer s key v = some t) :
    (key ≠ "listen" → t.listen = s.listen) ∧
      (key ≠ "hostname_suffix" → t.hostnameSuffix = s.hostnameSuffix) := by
  unfold putServer at h
  split at h
  · obtain ⟨x, -, rfl⟩ := Option.map_eq_some_iff.mp h
    exact ⟨fun other => absurd rfl other, fun _ => rfl⟩
  · obtain ⟨x, -, rfl⟩ := Option.map_eq_some_iff.mp h
    exact ⟨fun _ => rfl, fun other => absurd rfl other⟩
  · cases h

theorem listen_slot : Slot putServer "listen" IsText ServerSettings.listen :=
  .of_read text?_eq_some_iff (fun _ _ => rfl) (fun _ _ => rfl)
    fun other made => (putServer_keeps made).1 other

theorem hostnameSuffix_slot :
    Slot putServer "hostname_suffix" IsText ServerSettings.hostnameSuffix :=
  .of_read text?_eq_some_iff (fun _ _ => rfl) (fun _ _ => rfl)
    fun other made => (putServer_keeps made).2 other

theorem server?_eq_some_iff {n : Yaml.Node} {s : ServerSettings} :
    (section? putServer {} n = some s) ↔ IsServer n s := by
  refine section?_eq_some_iff_isSection putServer_known (fun h => ?_) ?_ ?_
  · exact ⟨listen_slot.told h, hostnameSuffix_slot.told h⟩
  · intro es t told apart key mem e here named
    simp only [serverKeys, List.mem_cons, List.not_mem_nil, or_false] at mem
    rcases mem with rfl | rfl
    · exact listen_slot.takesHere told.listen apart here named
    · exact hostnameSuffix_slot.takesHere told.hostnameSuffix apart here named
  · intro es t t' told told' apart
    have listen := told.listen.unique text?_eq_some_iff told'.listen apart
    have suffix := told.hostnameSuffix.unique text?_eq_some_iff told'.hostnameSuffix apart
    cases t
    cases t'
    cases listen
    cases suffix
    rfl

theorem putPeers_known {s t : PeerSettings} {key : String} {v : Yaml.Node}
    (h : putPeers s key v = some t) : key ∈ peerKeys := by
  unfold putPeers at h
  split at h <;> first | cases h | simp [peerKeys]

theorem putPeers_keeps {s t : PeerSettings} {key : String} {v : Yaml.Node}
    (h : putPeers s key v = some t) :
    (key ≠ "account_server" → t.accountServer = s.accountServer) ∧
      (key ≠ "price_server" → t.priceServer = s.priceServer) ∧
      (key ≠ "dial_timeout_ms" → t.dialTimeout = s.dialTimeout) := by
  unfold putPeers at h
  split at h
  · obtain ⟨x, -, rfl⟩ := Option.map_eq_some_iff.mp h
    exact ⟨fun other => absurd rfl other, fun _ => rfl, fun _ => rfl⟩
  · obtain ⟨x, -, rfl⟩ := Option.map_eq_some_iff.mp h
    exact ⟨fun _ => rfl, fun other => absurd rfl other, fun _ => rfl⟩
  · obtain ⟨x, -, rfl⟩ := Option.map_eq_some_iff.mp h
    exact ⟨fun _ => rfl, fun _ => rfl, fun other => absurd rfl other⟩
  · cases h

theorem accountServer_slot : Slot putPeers "account_server" IsText PeerSettings.accountServer :=
  .of_read text?_eq_some_iff (fun _ _ => rfl) (fun _ _ => rfl)
    fun other made => (putPeers_keeps made).1 other

theorem priceServer_slot : Slot putPeers "price_server" IsText PeerSettings.priceServer :=
  .of_read text?_eq_some_iff (fun _ _ => rfl) (fun _ _ => rfl)
    fun other made => (putPeers_keeps made).2.1 other

theorem dialTimeout_slot : Slot putPeers "dial_timeout_ms" (IsNumber 18446744073709551616)
    PeerSettings.dialTimeout :=
  .of_read number?_eq_some_iff (fun _ _ => rfl) (fun _ _ => rfl)
    fun other made => (putPeers_keeps made).2.2 other

theorem peers?_eq_some_iff {n : Yaml.Node} {s : PeerSettings} :
    (section? putPeers {} n = some s) ↔ IsPeers n s := by
  refine section?_eq_some_iff_isSection putPeers_known (fun h => ?_) ?_ ?_
  · exact ⟨accountServer_slot.told h, priceServer_slot.told h, dialTimeout_slot.told h⟩
  · intro es t told apart key mem e here named
    simp only [peerKeys, List.mem_cons, List.not_mem_nil, or_false] at mem
    rcases mem with rfl | rfl | rfl
    · exact accountServer_slot.takesHere told.accountServer apart here named
    · exact priceServer_slot.takesHere told.priceServer apart here named
    · exact dialTimeout_slot.takesHere told.dialTimeout apart here named
  · intro es t t' told told' apart
    have account := told.accountServer.unique text?_eq_some_iff told'.accountServer apart
    have price := told.priceServer.unique text?_eq_some_iff told'.priceServer apart
    have dial := told.dialTimeout.unique number?_eq_some_iff told'.dialTimeout apart
    cases t
    cases t'
    cases account
    cases price
    cases dial
    rfl

theorem putFlag_eq_some {name key : String} {b c : Bool} {v : Yaml.Node}
    (h : putFlag name b key v = some c) : key = name := by
  unfold putFlag at h
  split at h
  · assumption
  · cases h

theorem flag_slot (name : String) : Slot (putFlag name) name IsTruth id := by
  have puts : ∀ b v, putFlag name b name v =
      (truth? v).map ((fun _ c => c : Bool → Bool → Bool) b) := by
    intro b v
    rw [putFlag, if_pos rfl, Option.map_id']
  exact .of_read truth?_eq_some_iff puts (fun _ _ => rfl) fun other made =>
    absurd (putFlag_eq_some made) other

theorem flag?_eq_some_iff {name : String} {n : Yaml.Node} {b : Bool} :
    (section? (putFlag name) false n = some b) ↔ IsFlag name n b := by
  refine section?_eq_some_iff_isSection (fun made => ?_) (fun h => (flag_slot name).told h) ?_ ?_
  · rw [putFlag_eq_some made]
    exact List.mem_singleton_self name
  · intro es t told apart key mem e here named
    cases List.mem_singleton.mp mem
    exact (flag_slot name).takesHere told apart here named
  · intro es t t' told told' apart
    exact told.unique truth?_eq_some_iff told' apart

/-! ### Reading a document -/

theorem put_known {d t : Draft} {key : String} {v : Yaml.Node} (h : put d key v = some t) :
    key ∈ documentKeys := by
  unfold put at h
  split at h <;> first | cases h | simp [documentKeys]

/-- Drafts that differ under one key only. -/
structure Draft.SameBut (key : String) (d t : Draft) : Prop where
  version : key ≠ "version" → t.version? = d.version?
  role : key ≠ "role" → t.role? = d.role?
  server : key ≠ "server" → t.server = d.server
  peers : key ≠ "upstream" → t.peers = d.peers
  premiumOnly : key ≠ "price" → t.premiumOnly = d.premiumOnly
  v1Behavior : key ≠ "wallet" → t.v1Behavior = d.v1Behavior

theorem put_keeps {d t : Draft} {key : String} {v : Yaml.Node} (h : put d key v = some t) :
    d.SameBut key t := by
  unfold put at h
  split at h
  all_goals first
    | cases h
    | obtain ⟨x, -, rfl⟩ := Option.map_eq_some_iff.mp h
      constructor <;> intro other <;> first | rfl | exact absurd rfl other

/-- A value that was there stands for something. -/
def Filled {β : Type} (Is : Yaml.Node → β → Prop) (n : Yaml.Node) (b? : Option β) : Prop :=
  ∃ b, Is n b ∧ b? = some b

theorem filled_iff {β : Type} {read : Yaml.Node → Option β} {Is : Yaml.Node → β → Prop}
    (reads : ∀ {n b}, read n = some b ↔ Is n b) {n : Yaml.Node} {b? : Option β} :
    (read n).map some = some b? ↔ Filled Is n b? := by
  rw [Option.map_eq_some_iff, Filled]
  exact exists_congr fun b => and_congr reads eq_comm

theorem says_filled_iff {β : Type} {es : List Entry} {key : String} {Is : Yaml.Node → β → Prop}
    {b : β} : Says es key (Filled Is) (some none) (some b) ↔ Says es key Is none b := by
  constructor
  · rintro (⟨here, named, _, stands, ⟨⟩⟩ | ⟨_, ⟨⟩⟩)
    exact .given here named stands
  · rintro (⟨here, named, stands⟩ | ⟨_, ⟨⟩⟩)
    exact .given here named ⟨b, stands, rfl⟩

theorem version_slot : Slot put "version" (Filled (IsNumber 4294967296)) Draft.version? := by
  have puts : ∀ (d : Draft) v, put d "version" v =
      ((number? 4294967296 v).map some).map fun n => { d with version? := n } := by
    intro d v
    rw [Option.map_map]
    rfl
  exact .of_read (filled_iff number?_eq_some_iff) puts (fun _ _ => rfl)
    fun other made => (put_keeps made).version other

theorem role_slot : Slot put "role" (Filled IsRole) Draft.role? := by
  have puts : ∀ (d : Draft) v, put d "role" v =
      ((role? v).map some).map fun r => { d with role? := r } := by
    intro d v
    rw [Option.map_map]
    rfl
  exact .of_read (filled_iff role?_eq_some_iff) puts (fun _ _ => rfl)
    fun other made => (put_keeps made).role other

theorem server_slot : Slot put "server" IsServer Draft.server :=
  .of_read server?_eq_some_iff (fun _ _ => rfl) (fun _ _ => rfl)
    fun other made => (put_keeps made).server other

theorem peers_slot : Slot put "upstream" IsPeers Draft.peers :=
  .of_read peers?_eq_some_iff (fun _ _ => rfl) (fun _ _ => rfl)
    fun other made => (put_keeps made).peers other

theorem premiumOnly_slot : Slot put "price" (IsFlag "premium_only") Draft.premiumOnly :=
  .of_read flag?_eq_some_iff (fun _ _ => rfl) (fun _ _ => rfl)
    fun other made => (put_keeps made).premiumOnly other

theorem v1Behavior_slot : Slot put "wallet" (IsFlag "v1_behavior") Draft.v1Behavior :=
  .of_read flag?_eq_some_iff (fun _ _ => rfl) (fun _ _ => rfl)
    fun other made => (put_keeps made).v1Behavior other

/-- A draft that settings can be made of, where version and role are there. -/
structure TellsDraft (es : List Entry) (d : Draft) : Prop where
  version : Says es "version" (Filled (IsNumber 4294967296)) (some none) d.version?
  role : Says es "role" (Filled IsRole) (some none) d.role?
  server : Says es "server" IsServer (some ⟨"0.0.0.0:18881", ""⟩) d.server
  peers : Says es "upstream" IsPeers
    (some ⟨"http://localhost:18883", "http://localhost:18882", 5000⟩) d.peers
  premiumOnly : Says es "price" (IsFlag "premium_only") (some false) d.premiumOnly
  v1Behavior : Says es "wallet" (IsFlag "v1_behavior") (some false) d.v1Behavior

theorem draft?_eq_some_iff {n : Yaml.Node} {d : Draft} :
    (section? put {} n = some d) ↔ IsSection documentKeys TellsDraft n d := by
  refine section?_eq_some_iff_isSection put_known (fun h => ?_) ?_ ?_
  · exact ⟨version_slot.told h, role_slot.told h, server_slot.told h, peers_slot.told h,
      premiumOnly_slot.told h, v1Behavior_slot.told h⟩
  · intro es t told apart key mem e here named
    simp only [documentKeys, List.mem_cons, List.not_mem_nil, or_false] at mem
    rcases mem with rfl | rfl | rfl | rfl | rfl | rfl
    · exact version_slot.takesHere told.version apart here named
    · exact role_slot.takesHere told.role apart here named
    · exact server_slot.takesHere told.server apart here named
    · exact peers_slot.takesHere told.peers apart here named
    · exact premiumOnly_slot.takesHere told.premiumOnly apart here named
    · exact v1Behavior_slot.takesHere told.v1Behavior apart here named
  · intro es t t' told told' apart
    have version := told.version.unique (filled_iff number?_eq_some_iff) told'.version apart
    have role := told.role.unique (filled_iff role?_eq_some_iff) told'.role apart
    have server := told.server.unique server?_eq_some_iff told'.server apart
    have peers := told.peers.unique peers?_eq_some_iff told'.peers apart
    have premium := told.premiumOnly.unique flag?_eq_some_iff told'.premiumOnly apart
    have v1 := told.v1Behavior.unique flag?_eq_some_iff told'.v1Behavior apart
    cases t
    cases t'
    cases version
    cases role
    cases server
    cases peers
    cases premium
    cases v1
    rfl

theorem ofNode?_eq_some {n : Yaml.Node} {s : Settings} : ofNode? n = some s ↔
    (section? put {} n = some ⟨some s.version, some s.role, s.server, s.peers, s.premiumOnly,
      s.v1Behavior⟩) := by
  unfold ofNode?
  rw [Option.bind_eq_bind, Option.bind_eq_some_iff]
  constructor
  · rintro ⟨⟨version?, role?, server, peers, premiumOnly, v1Behavior⟩, read, made⟩
    obtain ⟨version, hv, made⟩ := Option.bind_eq_some_iff.mp made
    obtain ⟨role, hr, made⟩ := Option.bind_eq_some_iff.mp made
    cases made
    cases hv
    cases hr
    exact read
  · intro read
    exact ⟨_, read, rfl⟩

theorem ofNode?_eq_some_iff {n : Yaml.Node} {s : Settings} :
    ofNode? n = some s ↔ Describes n s := by
  rw [ofNode?_eq_some, draft?_eq_some_iff]
  constructor
  · rintro ⟨es, lists, keyed, told⟩
    have version := says_filled_iff.mp told.version
    cases lists with
    | map tag? es =>
      exact ⟨tag?, es, rfl, keyed, version, says_filled_iff.mp told.role, told.server, told.peers,
        told.premiumOnly, told.v1Behavior⟩
    | nothing tag? => cases version with
      | given here _ _ => exact absurd here List.not_mem_nil
      | absent _ stands => cases stands
  · rintro ⟨tag?, es, rfl, keyed, told⟩
    exact ⟨es, .map tag? es, keyed, says_filled_iff.mpr told.version, says_filled_iff.mpr told.role,
      told.server, told.peers, told.premiumOnly, told.v1Behavior⟩

/-! ## The order of entries -/

theorem IsSection.perm {σ : Type} {known : List String} {Says' : List Entry → σ → Prop}
    {tag? : Option String} {es es' : List Entry} {s : σ}
    (h : IsSection known Says' (.map tag? es) s) (perm : es.Perm es')
    (tells : Says' es s → Says' es' s) : IsSection known Says' (.map tag? es') s := by
  obtain ⟨_, ⟨⟩, keyed, told⟩ := h
  exact ⟨es', .map tag? es', keyed.perm perm, tells told⟩

theorem Describes.perm {tag? : Option String} {es es' : List Entry} {s : Settings}
    (h : Describes (.map tag? es) s) (perm : es.Perm es') : Describes (.map tag? es') s := by
  obtain ⟨_, _, ⟨⟩, keyed, told⟩ := h
  exact ⟨tag?, es', rfl, keyed.perm perm, told.version.perm perm, told.role.perm perm,
    told.server.perm perm, told.peers.perm perm, told.premiumOnly.perm perm,
    told.v1Behavior.perm perm⟩

theorem Describes.perm_section {tag? tag'? : Option String} {front back vs vs' : List Entry}
    {k : Yaml.Node} {s : Settings}
    (h : Describes (.map tag? (front ++ (k, .map tag'? vs) :: back)) s) (perm : vs.Perm vs') :
    Describes (.map tag? (front ++ (k, .map tag'? vs') :: back)) s := by
  obtain ⟨_, _, ⟨⟩, keyed, told⟩ := h
  refine ⟨_, _, rfl, keyed.replace, told.version.replace ?_, told.role.replace ?_,
    told.server.replace ?_, told.peers.replace ?_, told.premiumOnly.replace ?_,
    told.v1Behavior.replace ?_⟩
  · rintro ⟨_, _, ⟨⟩, -⟩
  · rintro (⟨⟨_, _, ⟨⟩⟩, -⟩ | ⟨⟨⟩, -⟩)
  · exact fun h => h.perm perm fun t => ⟨t.listen.perm perm, t.hostnameSuffix.perm perm⟩
  · exact fun h => h.perm perm fun t =>
      ⟨t.accountServer.perm perm, t.priceServer.perm perm, t.dialTimeout.perm perm⟩
  · exact fun h => h.perm perm fun t => Says.perm t perm
  · exact fun h => h.perm perm fun t => Says.perm t perm

end WalletWatch.Settings
