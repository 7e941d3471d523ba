import Mathlib.Data.List.Forall2
import WalletWatch.Message.Wire
import WalletWatch.Proofs.Json.Grammar

set_option autoImplicit false

/-!
# What readers accept

A reader accepts the documents of a kind, each for what it stands for. It takes them from the front
of a list, whatever follows, and takes nothing else. Readers that are put together from others do so
if those do.
-/

namespace WalletWatch.Json

open Document (moreItems moreMembers)

/-- A reader takes the documents that stand for something, and makes that of them. -/
def Accepts {α : Type} (read : Reader α) (stands : Document → α → Prop) : Prop :=
  ∀ ts a rest, read ts = .ok (a, rest) ↔ ∃ d, ts = Document.tokens d ++ rest ∧ stands d a

theorem Accepts.decode_eq_ok_iff {α : Type} {read : Reader α} {stands : Document → α → Prop}
    (h : Accepts read stands) (t : Text) (a : α) :
    Json.decode read t = .ok a ↔ ∃ d, Document.HeldBy d t ∧ stands d a := by
  have whole := h (Json.tokens t) a []
  simp only [List.append_nil, ← heldBy_iff] at whole
  rw [← whole]
  unfold Json.decode
  cases read (Json.tokens t) with
  | error e => simp
  | ok made =>
    obtain ⟨b, rest⟩ := made
    cases rest <;> simp

section HeldBy

variable {α : Type} {read : Reader α} {stands : Document → α → Prop} {d : Document} {t : Text}

theorem Accepts.decode_of_heldBy (h : Accepts read stands) (held : d.HeldBy t) (a : α) :
    Json.decode read t = .ok a ↔ stands d a := by
  rw [h.decode_eq_ok_iff]
  constructor
  · rintro ⟨d', held', stood⟩
    rwa [held.unique held']
  · exact fun stood => ⟨d, held, stood⟩

theorem Accepts.decodeFirst_of_heldBy (h : Accepts read stands) (held : d.HeldBy t) (a : α) :
    Json.decodeFirst read t = .ok a ↔ stands d a := by
  have whole : Json.tokens t = d.tokens ++ [] := by
    rw [List.append_nil]
    exact (heldBy_iff d t).mp held
  unfold Json.decodeFirst
  rw [whole]
  constructor
  · intro made
    cases taken : read (d.tokens ++ []) with
    | error e =>
      rw [taken] at made
      cases made
    | ok pair =>
      obtain ⟨b, rest⟩ := pair
      rw [taken] at made
      cases made
      obtain ⟨d', same, stood⟩ := (h _ _ _).mp taken
      rwa [Document.eq_of_tokens d d' same]
  · intro stood
    rw [(h _ a []).mpr ⟨d, rfl, stood⟩]
    rfl

end HeldBy

theorem Accepts.map {α β : Type} {read : Reader α} {stands : Document → α → Prop}
    (h : Accepts read stands) (g : α → β) :
    Accepts (fun ts => (read ts).map fun (a, rest) => (g a, rest))
      fun d b => ∃ a, stands d a ∧ b = g a := by
  intro ts b rest
  constructor
  · intro made
    cases taken : read ts with
    | error e => simp [taken, Except.map] at made
    | ok pair =>
      obtain ⟨a, rest'⟩ := pair
      simp only [taken, Except.map, Except.ok.injEq, Prod.mk.injEq] at made
      obtain ⟨rfl, rfl⟩ := made
      obtain ⟨d, whole, stood⟩ := (h ts a rest').mp taken
      exact ⟨d, whole, a, stood, rfl⟩
  · rintro ⟨d, rfl, a, stood, rfl⟩
    have taken := (h _ a rest).mpr ⟨d, rfl, stood⟩
    simp only [taken, Except.map]

/-! ## Strings and names -/

/-- A text literal that spells a string. -/
def IsString (d : Document) (s : String) : Prop := ∃ ps, d = .text ps ∧ string? ps = some s

theorem accepts_string : Accepts readString IsString := by
  intro ts s rest
  constructor
  · intro h
    unfold readString at h
    split at h
    · rename_i ps rest'
      split at h
      · rename_i spelled
        cases h
        exact ⟨.text ps, rfl, ps, rfl, spelled⟩
      · cases h
    · cases h
  · rintro ⟨d, rfl, ps, rfl, spelled⟩
    simp only [Document.tokens, List.cons_append, List.nil_append, readString, spelled]

/-- A document that names one of several values: the name itself, or an object whose only member has
the name as its key and is null. -/
inductive Names : Document → String → Prop where
  | text {k : List Piece} {s : String} (spelled : string? k = some s) : Names (.text k) s
  | member {k : List Piece} {s : String} (spelled : string? k = some s) :
      Names (.object [(k, .null)]) s

theorem named_eq_ok_iff {α : Type} {ofName : String → Option α} {ps : List Piece}
    {rest rest' : List Token} {a : α} :
    readName.named ofName ps rest = .ok (a, rest') ↔
      ∃ s, string? ps = some s ∧ ofName s = some a ∧ rest' = rest := by
  unfold readName.named
  cases string? ps with
  | none => simp
  | some s => cases h : ofName s <;> simp [h, eq_comm]

theorem readNull_eq_ok_iff {ts rest : List Token} :
    readNull ts = .ok ((), rest) ↔ ts = .null :: rest := by
  constructor
  · intro h
    unfold readNull at h
    split at h
    · cases h; rfl
    · cases h
  · rintro rfl
    rfl

theorem accepts_name {α : Type} (ofName : String → Option α) :
    Accepts (readName ofName) fun d a => ∃ s, Names d s ∧ ofName s = some a := by
  intro ts a rest
  constructor
  · intro h
    unfold readName at h
    split at h
    · obtain ⟨s, spelled, known, rfl⟩ := named_eq_ok_iff.mp h
      exact ⟨_, rfl, s, .text spelled, known⟩
    · rename_i k ts
      split at h
      · cases h
      · rename_i b ts' named
        obtain ⟨s, spelled, known, rfl⟩ := named_eq_ok_iff.mp named
        split at h
        · cases h
        · rename_i ts'' nothing
          cases h
          cases readNull_eq_ok_iff.mp nothing
          exact ⟨_, rfl, s, .member spelled, known⟩
        · cases h
      · cases h
    · cases h
    · cases h
  · rintro ⟨d, rfl, s, named, known⟩
    cases named with
    | text spelled => exact named_eq_ok_iff.mpr ⟨s, spelled, known, rfl⟩
    | @member k _ spelled =>
      have key : readName.named ofName k (.colon :: .null :: .closeBrace :: rest) =
          .ok (a, .colon :: .null :: .closeBrace :: rest) :=
        named_eq_ok_iff.mpr ⟨s, spelled, known, rfl⟩
      change readName ofName (.openBrace :: .text k :: .colon :: .null :: .closeBrace :: rest) = _
      simp only [readName, key]
      rfl

/-! ## Numbers, truth values and lists -/

/-- A number literal that spells a 64-bit integer. -/
def IsInt64 (d : Document) (z : Int64) : Prop := ∃ n, d = .number n ∧ n.int64? = some z

theorem accepts_int64 : Accepts readInt64 IsInt64 := by
  intro ts z rest
  constructor
  · intro h
    unfold readInt64 at h
    split at h
    · rename_i n rest'
      split at h
      · rename_i spelled
        cases h
        exact ⟨.number n, rfl, n, rfl, spelled⟩
      · cases h
    · cases h
  · rintro ⟨d, rfl, n, rfl, spelled⟩
    simp only [Document.tokens, List.cons_append, List.nil_append, readInt64, spelled]

theorem accepts_bool : Accepts readBool fun d b => d = .bool b := by
  intro ts b rest
  constructor
  · intro h
    unfold readBool at h
    split at h
    · cases h
      exact ⟨_, rfl, rfl⟩
    · cases h
      exact ⟨_, rfl, rfl⟩
    · cases h
  · rintro ⟨d, rfl, rfl⟩
    cases b <;> rfl

section List

variable {α : Type} {item : Reader α} {stands : Document → α → Prop} {ts rest : List Token}

theorem items_of_readMore (h : Accepts item stands) {n : Nat} {acc l : List α}
    (read : readMore item acc n ts = .ok (l, rest)) : ∃ items behind,
      ts = moreItems items ++ rest ∧ List.Forall₂ stands items behind ∧
        l = acc.reverse ++ behind := by
  induction n generalizing ts acc with
  | zero => cases read
  | succ n ih =>
    cases ts with
    | nil => cases read
    | cons t ts =>
      cases t with
      | closeBracket =>
        cases read
        exact ⟨[], [], rfl, .nil, (List.append_nil _).symm⟩
      | comma =>
        simp only [readMore] at read
        split at read
        · cases read
        · rename_i a ts' taken
          obtain ⟨d, rfl, stood⟩ := (h _ _ _).mp taken
          obtain ⟨items, behind, rfl, stood', rfl⟩ := ih read
          refine ⟨d :: items, a :: behind, ?_, .cons stood stood', ?_⟩
          · simp only [moreItems, List.cons_append, List.append_assoc]
          · rw [List.reverse_cons, List.append_assoc, List.singleton_append]
      | _ => cases read

theorem readMore_of_items (h : Accepts item stands) {items : List Document} {behind : List α}
    (stood : List.Forall₂ stands items behind) {n : Nat} (enough : items.length < n)
    (acc : List α) (rest : List Token) :
    readMore item acc n (moreItems items ++ rest) = .ok (acc.reverse ++ behind, rest) := by
  induction stood generalizing n acc with
  | nil =>
    cases n with
    | zero => exact absurd enough (Nat.not_lt_zero _)
    | succ n =>
      rw [List.append_nil]
      rfl
  | @cons d a items behind first more ih =>
    cases n with
    | zero => exact absurd enough (Nat.not_lt_zero _)
    | succ n =>
      have taken := (h _ a (moreItems items ++ rest)).mpr ⟨d, rfl, first⟩
      simp only [moreItems, List.cons_append, List.append_assoc, readMore, taken]
      rw [ih (Nat.lt_of_succ_lt_succ enough), List.reverse_cons, List.append_assoc,
        List.singleton_append]

/-- A list of documents, each of which stands for an item. -/
def IsList (stands : Document → α → Prop) (d : Document) (l : List α) : Prop :=
  ∃ items, d = .array items ∧ List.Forall₂ stands items l

theorem accepts_list (h : Accepts item stands) : Accepts (readList item) (IsList stands) := by
  intro ts l rest
  constructor
  · intro read
    unfold readList at read
    split at read
    · cases read
      exact ⟨.array [], rfl, [], rfl, .nil⟩
    · split at read
      · cases read
      · rename_i a ts' taken
        obtain ⟨d, rfl, stood⟩ := (h _ _ _).mp taken
        obtain ⟨items, behind, rfl, stood', rfl⟩ := items_of_readMore h read
        refine ⟨.array (d :: items), ?_, d :: items, rfl, .cons stood stood'⟩
        simp only [Document.tokens, List.cons_append, List.append_assoc]
    · cases read
  · rintro ⟨d, rfl, items, rfl, stood⟩
    cases stood with
    | nil => rfl
    | @cons d a items behind first more =>
      have taken := (h _ a (moreItems items ++ rest)).mpr ⟨d, rfl, first⟩
      have enough : items.length < (moreItems items ++ rest).length + 1 := by
        have longer := Document.length_lt_moreItems items
        rw [List.length_append]
        omega
      have filled : ∀ ts', d.tokens ++ (moreItems items ++ rest) ≠ .closeBracket :: ts' :=
        d.tokens_ne_closeBracket _
      simp only [Document.tokens, List.cons_append, List.append_assoc]
      rw [readList]
      · simp only [taken]
        exact readMore_of_items h more enough [a] rest
      · exact filled

end List

/-! ## Records -/

namespace Record

variable {σ α : Type}

/-- What a document does to the fields of a record that are read so far, where it is the value of
the member of a given key. -/
inductive Member (r : Record σ α) (stands : String → σ → Document → σ → Prop) (key : String)
    (d : Document) (s : σ) : σ → Prop where
  | field {f : Field σ} {s' : σ} (found : r.field? key = some f) (fresh : f.given s = false)
      (value : stands key s d s') : Member r stands key d s s'
  | extra (unknown : r.field? key = none) (tolerant : r.closed = false) :
      Member r stands key d s s

/-- What the members of an object do in turn. -/
inductive Members (r : Record σ α) (stands : String → σ → Document → σ → Prop) :
    List (List Piece × Document) → σ → σ → Prop where
  | nil (s : σ) : Members r stands [] s s
  | cons {k : List Piece} {key : String} {d : Document} {members : List (List Piece × Document)}
      {s s' s'' : σ} (spelled : string? k = some key) (first : r.Member stands key d s s')
      (more : Members r stands members s' s'') : Members r stands ((k, d) :: members) s s''

/-- What the items of a list do, each to the field in its place. -/
inductive Items (stands : String → σ → Document → σ → Prop) :
    List (Field σ) → List Document → σ → σ → Prop where
  | nil (fs : List (Field σ)) (s : σ) : Items stands fs [] s s
  | cons {f : Field σ} {fs : List (Field σ)} {d : Document} {items : List Document} {s s' s'' : σ}
      (first : stands f.name s d s') (more : Items stands fs items s' s'') :
      Items stands (f :: fs) (d :: items) s s''

/-- The objects and the lists that hold a record. -/
inductive Stands (r : Record σ α) (stands : String → σ → Document → σ → Prop) :
    Document → α → Prop where
  | object {members : List (List Piece × Document)} {s : σ} {a : α}
      (read : r.Members stands members r.start s) (done : r.done s = some a) :
      Stands r stands (.object members) a
  | array {items : List Document} {s : σ} {a : α} (read : Items stands r.fields items r.start s)
      (done : r.done s = some a) : Stands r stands (.array items) a

variable {r : Record σ α} {stands : String → σ → Document → σ → Prop}
  {s s' : σ} {ts rest : List Token}

theorem name_of_field? {key : String} {f : Field σ} (h : r.field? key = some f) :
    f ∈ r.fields ∧ f.name = key :=
  ⟨List.mem_of_find?_eq_some h, by simpa using List.find?_some h⟩

theorem readMember_eq_ok_iff (hr : ∀ f ∈ r.fields, ∀ s, Accepts (f.read s) (stands f.name s))
    (key : String) : r.readMember key s ts = .ok (s', rest) ↔
      ∃ d, ts = .colon :: (Document.tokens d ++ rest) ∧ r.Member stands key d s s' := by
  cases found : r.field? key with
  | some f =>
    obtain ⟨mem, rfl⟩ := name_of_field? found
    simp only [readMember, found]
    constructor
    · intro h
      split at h
      · cases h
      · rename_i fresh
        split at h
        · obtain ⟨d, rfl, value⟩ := (hr f mem s _ _ _).mp h
          exact ⟨d, rfl, .field found (Bool.eq_false_iff.mpr fresh) value⟩
        · cases h
    · rintro ⟨d, rfl, member⟩
      cases member with
      | @field g _ found' fresh value =>
        cases found.symm.trans found'
        simp only [fresh]
        exact (hr f mem s _ _ _).mpr ⟨d, rfl, value⟩
      | extra unknown _ => exact nomatch found.symm.trans unknown
  | none =>
    simp only [readMember, found]
    constructor
    · intro h
      split at h
      · cases h
      · rename_i tolerant
        split at h
        · split at h
          · rename_i skipped
            cases h
            obtain ⟨d, rfl⟩ := (skip_eq_some_iff _ _).mp skipped
            exact ⟨d, rfl, .extra found (Bool.eq_false_iff.mpr tolerant)⟩
          · cases h
        · cases h
    · rintro ⟨d, rfl, member⟩
      cases member with
      | field found' _ _ => exact nomatch found.symm.trans found'
      | extra _ tolerant =>
        simp only [tolerant, skip_tokens]
        rfl

theorem members_of_readMembers
    (hr : ∀ f ∈ r.fields, ∀ s, Accepts (f.read s) (stands f.name s)) {n : Nat}
    (h : r.readMembers n s ts = .ok (s', rest)) :
    ∃ k d members, ts = .text k :: .colon :: (Document.tokens d ++ (moreMembers members ++ rest)) ∧
      r.Members stands ((k, d) :: members) s s' := by
  induction n generalizing s ts with
  | zero => cases h
  | succ n ih =>
    cases ts with
    | nil => cases h
    | cons t ts =>
      cases t with
      | text k =>
        simp only [readMembers] at h
        split at h
        · cases h
        · rename_i key spelled
          split at h
          · cases h
          · rename_i s₁ ts₁ read
            obtain ⟨d, rfl, first⟩ := (readMember_eq_ok_iff hr key).mp read
            obtain ⟨l, e, members, rfl, more⟩ := ih h
            refine ⟨k, d, (l, e) :: members, ?_, .cons spelled first more⟩
            simp only [moreMembers, List.cons_append, List.append_assoc]
          · rename_i s₁ ts₁ read
            obtain ⟨d, rfl, first⟩ := (readMember_eq_ok_iff hr key).mp read
            cases h
            exact ⟨k, d, [], rfl, .cons spelled first (.nil _)⟩
          · cases h
      | _ => cases h

theorem readMembers_of_members
    (hr : ∀ f ∈ r.fields, ∀ s, Accepts (f.read s) (stands f.name s)) {n : Nat} {k : List Piece}
    {d : Document} {members : List (List Piece × Document)} (enough : members.length < n)
    (rest : List Token) (h : r.Members stands ((k, d) :: members) s s') :
    r.readMembers n s (.text k :: .colon :: (d.tokens ++ (moreMembers members ++ rest))) =
      .ok (s', rest) := by
  induction n generalizing k d members s with
  | zero => exact absurd enough (Nat.not_lt_zero _)
  | succ n ih =>
    cases h with
    | @cons _ key _ _ _ s₁ _ spelled first more =>
      have read : r.readMember key s (.colon :: (d.tokens ++ (moreMembers members ++ rest))) =
          .ok (s₁, moreMembers members ++ rest) :=
        (readMember_eq_ok_iff hr key).mpr ⟨d, rfl, first⟩
      simp only [readMembers, spelled, read]
      cases members with
      | nil =>
        cases more
        rfl
      | cons m members =>
        obtain ⟨l, e⟩ := m
        have behind := ih (k := l) (d := e) (Nat.lt_of_succ_lt_succ enough) more
        rw [← List.append_assoc] at behind
        exact behind

theorem readMoreItems_eq_ok_iff {fs : List (Field σ)}
    (hr : ∀ f ∈ fs, ∀ s, Accepts (f.read s) (stands f.name s)) :
    readItems false s fs ts = .ok (s', rest) ↔
      ∃ items, ts = moreItems items ++ rest ∧ Items stands fs items s s' := by
  constructor
  · intro h
    induction fs generalizing s ts with
    | nil =>
      cases ts with
      | nil => cases h
      | cons t ts =>
        cases t with
        | closeBracket => cases h; exact ⟨[], rfl, .nil _ _⟩
        | _ => cases h
    | cons f fs ih =>
      cases ts with
      | nil => cases h
      | cons t ts =>
        cases t with
        | closeBracket => cases h; exact ⟨[], rfl, .nil _ _⟩
        | comma =>
          simp only [readItems, readItems.separated] at h
          split at h
          · cases h
          · rename_i ts' go
            cases go
            split at h
            · cases h
            · rename_i s₁ ts₁ read
              obtain ⟨d, rfl, first⟩ := (hr f List.mem_cons_self s _ _ _).mp read
              obtain ⟨items, rfl, more⟩ := ih (fun g hg => hr g (List.mem_cons_of_mem f hg)) h
              refine ⟨d :: items, ?_, .cons first more⟩
              simp only [moreItems, List.cons_append, List.append_assoc]
        | _ => cases h
  · rintro ⟨items, rfl, h⟩
    induction h with
    | nil fs s => cases fs <;> rfl
    | @cons f fs d items s s₁ s'' first more ih =>
      have read := (hr f List.mem_cons_self s _ _ (moreItems items ++ rest)).mpr ⟨d, rfl, first⟩
      have behind := ih fun g hg => hr g (List.mem_cons_of_mem f hg)
      simp only [moreItems, List.cons_append, List.append_assoc, readItems, readItems.separated,
        Bool.false_eq_true, if_false, read, behind]

theorem readItems_closeBracket (first : Bool) (s : σ) (fs : List (Field σ)) :
    readItems first s fs (.closeBracket :: rest) = .ok (s, rest) := by
  cases fs <;> rfl

theorem readItems_first (f : Field σ) (fs : List (Field σ))
    (filled : ∀ ts', ts ≠ .closeBracket :: ts') : readItems true s (f :: fs) ts =
      match f.read s ts with
      | .error e => .error e
      | .ok (s', rest) => readItems false s' fs rest := by
  rw [readItems]
  · rfl
  · exact filled

theorem readItems_eq_ok_iff {fs : List (Field σ)}
    (hr : ∀ f ∈ fs, ∀ s, Accepts (f.read s) (stands f.name s)) :
    readItems true s fs ts = .ok (s', rest) ↔
      ∃ items, .openBracket :: ts = Document.tokens (.array items) ++ rest ∧
        Items stands fs items s s' := by
  constructor
  · intro h
    by_cases empty : ∃ ts', ts = .closeBracket :: ts'
    · obtain ⟨ts', rfl⟩ := empty
      rw [readItems_closeBracket] at h
      cases h
      exact ⟨[], rfl, .nil _ _⟩
    · have filled : ∀ ts', ts ≠ .closeBracket :: ts' := fun ts' h => empty ⟨ts', h⟩
      cases fs with
      | nil =>
        rw [readItems] at h
        · cases h
        · exact filled
      | cons f fs =>
        rw [readItems_first f fs filled] at h
        split at h
        · cases h
        · rename_i s₁ ts₁ read
          obtain ⟨d, rfl, first⟩ := (hr f List.mem_cons_self s _ _ _).mp read
          obtain ⟨items, rfl, more⟩ :=
            (readMoreItems_eq_ok_iff fun g hg => hr g (List.mem_cons_of_mem f hg)).mp h
          refine ⟨d :: items, ?_, .cons first more⟩
          rw [Document.tokens, List.cons_append, List.append_assoc]
  · rintro ⟨items, whole, h⟩
    cases h with
    | nil fs s =>
      cases whole
      exact readItems_closeBracket true s fs
    | @cons f fs d items s s₁ s'' first more =>
      rw [Document.tokens, List.cons_append, List.append_assoc] at whole
      cases whole
      have filled : ∀ ts', d.tokens ++ (moreItems items ++ rest) ≠ .closeBracket :: ts' :=
        d.tokens_ne_closeBracket _
      have read := (hr f List.mem_cons_self s _ _ (moreItems items ++ rest)).mpr ⟨d, rfl, first⟩
      rw [readItems_first f fs filled, read]
      exact (readMoreItems_eq_ok_iff fun g hg => hr g (List.mem_cons_of_mem f hg)).mpr
        ⟨items, rfl, more⟩

theorem complete_eq_ok_iff {read : Except Reject (σ × List Token)} {a : α} :
    r.complete read = .ok (a, rest) ↔ ∃ s, read = .ok (s, rest) ∧ r.done s = some a := by
  constructor
  · intro h
    unfold complete at h
    split at h
    · cases h
    · split at h
      · rename_i done
        cases h
        exact ⟨_, rfl, done⟩
      · cases h
  · rintro ⟨s, rfl, done⟩
    simp only [complete, done]

theorem accepts (hr : ∀ f ∈ r.fields, ∀ s, Accepts (f.read s) (stands f.name s)) :
    Accepts r.read (r.Stands stands) := by
  intro ts a rest
  constructor
  · intro h
    unfold read at h
    split at h
    · obtain ⟨s, begun, done⟩ := complete_eq_ok_iff.mp h
      cases begun
      exact ⟨.object [], rfl, .object (.nil _) done⟩
    · obtain ⟨s, made, done⟩ := complete_eq_ok_iff.mp h
      obtain ⟨k, d, members, rfl, read⟩ := members_of_readMembers hr made
      refine ⟨.object ((k, d) :: members), ?_, .object read done⟩
      simp only [Document.tokens, List.cons_append, List.append_assoc]
    · obtain ⟨s, made, done⟩ := complete_eq_ok_iff.mp h
      obtain ⟨items, whole, read⟩ := (readItems_eq_ok_iff hr).mp made
      exact ⟨.array items, whole, .array read done⟩
    · cases h
  · rintro ⟨d, rfl, h⟩
    cases h with
    | @object members s _ read done =>
      cases members with
      | nil =>
        cases read
        exact complete_eq_ok_iff.mpr ⟨_, rfl, done⟩
      | cons m members =>
        obtain ⟨k, d⟩ := m
        have enough : members.length <
            (Token.text k :: .colon :: (d.tokens ++ (moreMembers members ++ rest))).length := by
          have longer := Document.length_lt_moreMembers members
          simp only [List.length_cons, List.length_append]
          omega
        have made := readMembers_of_members hr enough rest read
        simp only [Document.tokens, List.cons_append, List.append_assoc]
        exact complete_eq_ok_iff.mpr ⟨s, made, done⟩
    | @array items s _ read done =>
      have opened : ∃ ts, Document.tokens (.array items) ++ rest = .openBracket :: ts := by
        cases items <;> exact ⟨_, rfl⟩
      obtain ⟨ts, whole⟩ := opened
      have made := (readItems_eq_ok_iff hr).mpr ⟨items, whole.symm, read⟩
      rw [whole]
      exact complete_eq_ok_iff.mpr ⟨s, made, done⟩

end Record

end WalletWatch.Json
