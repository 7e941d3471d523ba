import WalletWatch.Proofs.Json.Acceptance

set_option autoImplicit false

/-!
# Records of two fields

The documents that hold a record of two fields, in an object with its members in any order and any
others between them, or in a list. A field takes one document at most, and none if it has a default.
-/

namespace WalletWatch.Json

variable {α β γ : Type}

/-- The documents behind the members of an object that have a given key. -/
def valuesOf (name : String) (members : List (List Piece × Document)) : List Document :=
  (members.filter fun m => string? m.1 = some name).map Prod.snd

/-- What becomes of a field: nothing without a document for it, and it takes one only. -/
inductive Fills (stands : Document → β → Prop) : Option β → List Document → Option β → Prop where
  | absent (b? : Option β) : Fills stands b? [] b?
  | given {d : Document} {b : β} (h : stands d b) : Fills stands none [d] (some b)

/-- The documents for each of two fields: members of an object all of whose keys can be read, or the
items of a list in their places. -/
inductive Holds (name name' : String) : Document → List Document → List Document → Prop where
  | object {members : List (List Piece × Document)}
      (legible : ∀ m ∈ members, (string? m.1).isSome = true) :
      Holds name name' (.object members) (valuesOf name members) (valuesOf name' members)
  | array (items : List Document) : Holds name name' (.array items) (items.take 1) (items.drop 1)

/-- The documents that hold a record of two fields. -/
inductive Pair (name : String) (stands : Document → β → Prop) (default? : Option β)
    (name' : String) (stands' : Document → γ → Prop) (default?' : Option γ) (make : β → γ → α) :
    Document → α → Prop where
  | mk {d : Document} {docs docs' : List Document} {b? : Option β} {c? : Option γ} {b : β} {c : γ}
      (held : Holds name name' d docs docs') (first : Fills stands none docs b?)
      (second : Fills stands' none docs' c?) (known : b?.or default? = some b)
      (known' : c?.or default?' = some c) :
      Pair name stands default? name' stands' default?' make d (make b c)

variable {name name' : String} {read : Reader β} {read' : Reader γ} {stands : Document → β → Prop}
  {stands' : Document → γ → Prop} {default? : Option β} {default?' : Option γ} {make : β → γ → α}

theorem fills_nil_iff {b? b?' : Option β} : Fills stands b? [] b?' ↔ b?' = b? := by
  constructor
  · intro h
    cases h
    rfl
  · rintro rfl
    exact .absent _

theorem fills_cons_iff {d : Document} {docs : List Document} {b? b?' : Option β} :
    Fills stands b? (d :: docs) b?' ↔
      b? = none ∧ ∃ b, stands d b ∧ Fills stands (some b) docs b?' := by
  constructor
  · intro h
    cases h with
    | given h => exact ⟨rfl, _, h, .absent _⟩
  · rintro ⟨rfl, b, h, more⟩
    cases more
    exact .given h

theorem fills_append_iff {docs docs' : List Document} {b? b?' : Option β} :
    Fills stands b? (docs ++ docs') b?' ↔
      ∃ between, Fills stands b? docs between ∧ Fills stands between docs' b?' := by
  induction docs generalizing b? with
  | nil => simp [fills_nil_iff]
  | cons d docs ih =>
    simp only [List.cons_append, fills_cons_iff, ih]
    constructor
    · rintro ⟨rfl, b, h, between, first, second⟩
      exact ⟨between, ⟨rfl, b, h, first⟩, second⟩
    · rintro ⟨between, ⟨rfl, b, h, first⟩, second⟩
      exact ⟨rfl, b, h, between, first, second⟩

/-- What a document does to the two fields, as the value of one of them. -/
def puts (name : String) (stands : Document → β → Prop) (stands' : Document → γ → Prop)
    (key : String) (s : Option β × Option γ) (d : Document) (s' : Option β × Option γ) : Prop :=
  if key = name then ∃ b, stands d b ∧ s' = (some b, s.2) else ∃ c, stands' d c ∧ s' = (s.1, some c)

theorem accepts_puts (differ : name ≠ name') (h : Accepts read stands)
    (h' : Accepts read' stands') :
    ∀ f ∈ (record2 name read default? name' read' default?' make).fields, ∀ s,
      Accepts (f.read s) (puts name stands stands' f.name s) := by
  intro f hf s
  simp only [record2, List.mem_cons, List.not_mem_nil, or_false] at hf
  rcases hf with rfl | rfl
  · unfold puts
    simp only [if_true]
    exact h.map fun b => (some b, s.2)
  · unfold puts
    simp only [differ.symm, if_false]
    exact h'.map fun c => (s.1, some c)

section Members

variable {b? b?' : Option β} {c? c?' : Option γ}

theorem member_first_iff {d : Document} :
    (record2 name read default? name' read' default?' make).Member
        (puts name stands stands') name d (b?, c?) (b?', c?') ↔
      b? = none ∧ ∃ b, stands d b ∧ b?' = some b ∧ c?' = c? := by
  have found : (record2 name read default? name' read' default?' make).field? name =
      (record2 name read default? name' read' default?' make).fields.head? := by
    simp [Record.field?, record2]
  constructor
  · intro h
    cases h with
    | field found' fresh value =>
      cases found.symm.trans found'
      obtain ⟨b, h, same⟩ := (if_pos rfl).mp value
      cases same
      exact ⟨Option.not_isSome_iff_eq_none.mp (Bool.eq_false_iff.mp fresh), b, h, rfl, rfl⟩
    | extra unknown _ => exact nomatch found.symm.trans unknown
  · rintro ⟨rfl, b, h, rfl, rfl⟩
    exact .field found rfl ((if_pos rfl).mpr ⟨b, h, rfl⟩)

theorem member_second_iff (differ : name ≠ name') {d : Document} :
    (record2 name read default? name' read' default?' make).Member
        (puts name stands stands') name' d (b?, c?) (b?', c?') ↔
      c? = none ∧ ∃ c, stands' d c ∧ c?' = some c ∧ b?' = b? := by
  have found : (record2 name read default? name' read' default?' make).field? name' =
      (record2 name read default? name' read' default?' make).fields[1]? := by
    simp [Record.field?, record2, differ]
  constructor
  · intro h
    cases h with
    | field found' fresh value =>
      cases found.symm.trans found'
      obtain ⟨c, h, same⟩ := (if_neg differ.symm).mp value
      cases same
      exact ⟨Option.not_isSome_iff_eq_none.mp (Bool.eq_false_iff.mp fresh), c, h, rfl, rfl⟩
    | extra unknown _ => exact nomatch found.symm.trans unknown
  · rintro ⟨rfl, c, h, rfl, rfl⟩
    exact .field found rfl ((if_neg differ.symm).mpr ⟨c, h, rfl⟩)

theorem member_extra_iff {key : String} (first : key ≠ name) (second : key ≠ name')
    {d : Document} : (record2 name read default? name' read' default?' make).Member
        (puts name stands stands') key d (b?, c?) (b?', c?') ↔ b?' = b? ∧ c?' = c? := by
  have unknown : (record2 name read default? name' read' default?' make).field? key = none := by
    simp [Record.field?, record2, first.symm, second.symm]
  constructor
  · intro h
    cases h with
    | field found _ _ => exact nomatch found.symm.trans unknown
    | extra _ _ => exact ⟨rfl, rfl⟩
  · rintro ⟨rfl, rfl⟩
    exact .extra unknown rfl

theorem member_iff (differ : name ≠ name') {key : String} {d : Document} :
    (record2 name read default? name' read' default?' make).Member
        (puts name stands stands') key d (b?, c?) (b?', c?') ↔
      Fills stands b? (if key = name then [d] else []) b?' ∧
        Fills stands' c? (if key = name' then [d] else []) c?' := by
  by_cases first : key = name
  · subst first
    simp only [member_first_iff, differ, if_true, if_false, fills_cons_iff, fills_nil_iff]
    grind
  · by_cases second : key = name'
    · subst second
      simp only [member_second_iff differ, first, if_true, if_false, fills_cons_iff, fills_nil_iff]
      grind
    · simp only [member_extra_iff first second, first, second, if_false, fills_nil_iff]

theorem valuesOf_cons (name : String) (k : List Piece) (d : Document)
    (members : List (List Piece × Document)) : valuesOf name ((k, d) :: members) =
      (if string? k = some name then [d] else []) ++ valuesOf name members := by
  unfold valuesOf
  by_cases h : string? k = some name <;> simp [h]

theorem members_iff (differ : name ≠ name') {members : List (List Piece × Document)} :
    (record2 name read default? name' read' default?' make).Members
        (puts name stands stands') members (b?, c?) (b?', c?') ↔
      (∀ m ∈ members, (string? m.1).isSome = true) ∧ Fills stands b? (valuesOf name members) b?' ∧
        Fills stands' c? (valuesOf name' members) c?' := by
  induction members generalizing b? c? with
  | nil =>
    constructor
    · intro h
      cases h
      exact ⟨fun _ h => absurd h List.not_mem_nil, .absent _, .absent _⟩
    · rintro ⟨-, first, second⟩
      cases first
      cases second
      exact .nil _
  | cons m members ih =>
    obtain ⟨k, d⟩ := m
    simp only [valuesOf_cons, fills_append_iff, List.forall_mem_cons]
    constructor
    · intro h
      cases h with
      | @cons _ key _ _ _ s₁ _ spelled first more =>
        obtain ⟨b₁, c₁⟩ := s₁
        obtain ⟨h, h'⟩ := (member_iff differ).mp first
        obtain ⟨legible, more, more'⟩ := ih.mp more
        rw [spelled]
        simp only [Option.some.injEq]
        exact ⟨⟨rfl, legible⟩, ⟨b₁, h, more⟩, ⟨c₁, h', more'⟩⟩
    · rintro ⟨⟨readable, legible⟩, ⟨b₁, h, more⟩, ⟨c₁, h', more'⟩⟩
      obtain ⟨key, spelled⟩ := Option.isSome_iff_exists.mp readable
      rw [spelled] at h h'
      simp only [Option.some.injEq] at h h'
      exact .cons spelled ((member_iff differ).mpr ⟨h, h'⟩) (ih.mpr ⟨legible, more, more'⟩)

theorem items_iff (differ : name ≠ name') {items : List Document} :
    Record.Items (puts name stands stands')
        (record2 name read default? name' read' default?' make).fields items (none, none)
          (b?, c?) ↔
      Fills stands none (items.take 1) b? ∧ Fills stands' none (items.drop 1) c? := by
  constructor
  · intro h
    cases h with
    | nil => exact ⟨.absent _, .absent _⟩
    | cons first more =>
      obtain ⟨b, h, rfl⟩ := (if_pos rfl).mp first
      cases more with
      | nil => exact ⟨.given h, .absent _⟩
      | cons second more =>
        obtain ⟨c, h', rfl⟩ := (if_neg differ.symm).mp second
        cases more
        exact ⟨.given h, .given h'⟩
  · rintro ⟨first, second⟩
    cases items with
    | nil =>
      cases first
      cases second
      exact .nil _ _
    | cons d items =>
      cases first with
      | given h =>
        have taken : puts name stands stands' name (none, none) d (some _, none) :=
          (if_pos rfl).mpr ⟨_, h, rfl⟩
        generalize behind : (d :: items).drop 1 = docs at second
        change items = docs at behind
        subst behind
        cases second with
        | absent => exact .cons taken (.nil _ _)
        | given h' =>
          exact .cons taken (.cons ((if_neg differ.symm).mpr ⟨_, h', rfl⟩) (.nil _ _))

end Members

theorem accepts_record2 (differ : name ≠ name') (h : Accepts read stands)
    (h' : Accepts read' stands') :
    Accepts (record2 name read default? name' read' default?' make).read
      (Pair name stands default? name' stands' default?' make) := by
  intro ts a rest
  refine (Record.accepts (accepts_puts differ h h') ts a rest).trans (exists_congr fun d => ?_)
  refine and_congr_right fun _ => ?_
  constructor
  · intro stood
    cases stood with
    | @object members s _ read done =>
      obtain ⟨b?, c?⟩ := s
      obtain ⟨legible, first, second⟩ := (members_iff differ).mp read
      obtain ⟨b, known, rest⟩ := Option.bind_eq_some_iff.mp done
      obtain ⟨c, known', rfl⟩ := Option.map_eq_some_iff.mp rest
      exact .mk (.object legible) first second known known'
    | @array items s _ read done =>
      obtain ⟨b?, c?⟩ := s
      obtain ⟨first, second⟩ := (items_iff differ).mp read
      obtain ⟨b, known, rest⟩ := Option.bind_eq_some_iff.mp done
      obtain ⟨c, known', rfl⟩ := Option.map_eq_some_iff.mp rest
      exact .mk (.array items) first second known known'
  · intro stood
    cases stood with
    | @mk _ _ b? c? b c held first second known known' =>
      have done : (record2 name read default? name' read' default?' make).done (b?, c?) =
          some (make b c) :=
        Option.bind_eq_some_iff.mpr ⟨b, known, Option.map_eq_some_iff.mpr ⟨c, known', rfl⟩⟩
      cases held with
      | object legible =>
        exact .object ((members_iff differ).mpr ⟨legible, first, second⟩) done
      | array items => exact .array ((items_iff differ).mpr ⟨first, second⟩) done

end WalletWatch.Json
