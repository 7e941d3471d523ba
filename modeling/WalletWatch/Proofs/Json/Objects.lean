import WalletWatch.Json.Value
import WalletWatch.Proofs.Json.Pairs

set_option autoImplicit false

/-!
# Objects by their members

The members of an object come in any order, and each facet of what the object tells is told by one
of them. So an object tells what the values behind the names of the facets tell, and its other
members may be anything.
-/

namespace WalletWatch.Json

variable {α β γ : Type}

/-- All names in an object can be read. -/
def WellNamed (members : List (List Piece × Document)) : Prop :=
  ∀ m ∈ members, (string? m.1).isSome = true

/-- A facet of what an object tells. -/
structure Facet (α : Type) where
  /-- The name of the member that tells it. -/
  name : String
  tells : Document → α → Prop
  /-- It is what it is taken for where no member tells it. -/
  default : α → Prop

/-- The documents for a facet: one that tells it, or none where it is the default. -/
def Facet.Takes (p : Facet α) (docs : List Document) (a : α) : Prop :=
  (docs = [] ∧ p.default a) ∨ ∃ d, docs = [d] ∧ p.tells d a

theorem Facet.Takes.length_le {p : Facet α} {docs : List Document} {a : α} (h : p.Takes docs a) :
    docs.length ≤ 1 := by
  rcases h with ⟨rfl, -⟩ | ⟨d, rfl, -⟩
  · exact Nat.zero_le 1
  · exact Nat.le_refl 1

theorem Facet.takes_nil_iff {p : Facet α} {a : α} : p.Takes [] a ↔ p.default a := by
  constructor
  · rintro (⟨-, default⟩ | ⟨d, one, -⟩)
    · exact default
    · cases one
  · exact fun default => .inl ⟨rfl, default⟩

/-- A facet that is a field of a record. -/
def Facet.ofField (name : String) (stands : Document → β → Prop) (default? : Option β)
    (get : α → β) : Facet α where
  name := name
  tells d a := stands d (get a)
  default a := default? = some (get a)

/-- An object is read by its members: the facets are told, and all others are passed over unless the
record is closed. -/
structure Tells (facets : List (Facet α)) (closed : Bool) (members : List (List Piece × Document))
    (a : α) : Prop where
  named : WellNamed members
  known : closed = true → ∀ m ∈ members, ∃ p ∈ facets, string? m.1 = some p.name
  takes : ∀ p ∈ facets, p.Takes (valuesOf p.name members) a

/-- What the objects among some documents stand for is told by their members. -/
def ByMembers (stands : Document → α → Prop) (facets : List (Facet α)) (closed : Bool) : Prop :=
  ∀ members a, stands (.object members) a ↔ Tells facets closed members a

section OfField

variable {name : String} {stands : Document → β → Prop} {default? : Option β} {get : α → β}
  {docs : List Document} {a a' : α}

theorem takes_ofField_iff :
    (Facet.ofField name stands default? get).Takes docs a ↔
      ∃ b?, Fills stands none docs b? ∧ b?.or default? = some (get a) := by
  constructor
  · rintro (⟨rfl, absent⟩ | ⟨d, rfl, told⟩)
    · exact ⟨none, .absent _, absent⟩
    · exact ⟨some (get a), .given told, rfl⟩
  · rintro ⟨b?, fills, known⟩
    cases fills with
    | absent => exact .inl ⟨rfl, known⟩
    | @given d b told =>
      cases known
      exact .inr ⟨d, rfl, told⟩

theorem takes_congr (same : get a = get a')
    (h : (Facet.ofField name stands default? get).Takes docs a) :
    (Facet.ofField name stands default? get).Takes docs a' := by
  rw [takes_ofField_iff] at h ⊢
  rwa [← same]

theorem exists_default_iff (any : ∀ b, ∃ a, get a = b) :
    (∃ a, (Facet.ofField name stands default? get).default a) ↔ default?.isSome = true := by
  rw [Option.isSome_iff_exists]
  constructor
  · rintro ⟨a, default⟩
    exact ⟨get a, default⟩
  · rintro ⟨b, default⟩
    obtain ⟨a, rfl⟩ := any b
    exact ⟨a, default⟩

end OfField

/-! ## No field -/

theorem byMembers_empty {r : Record Unit α} {a₀ : α} (fields : r.fields = [])
    (tolerant : r.closed = false) (done : r.done r.start = some a₀) (unique : ∀ a, a = a₀) :
    ByMembers (r.Stands fun _ _ _ _ => False) [] false := by
  have unknown : ∀ key, r.field? key = none := by
    intro key
    rw [Record.field?, fields]
    rfl
  intro members a
  constructor
  · intro stood
    cases stood with
    | object read made =>
      refine ⟨?_, fun strict => absurd strict Bool.false_ne_true,
        fun p mem => absurd mem List.not_mem_nil⟩
      generalize r.start = s at read
      clear done made
      induction read with
      | nil s => exact fun m mem => absurd mem List.not_mem_nil
      | cons spelled first more ih =>
        exact List.forall_mem_cons.mpr ⟨by rw [spelled]; rfl, ih⟩
  · intro told
    obtain rfl := unique a
    refine .object (s := r.start) ?_ done
    have legible := told.named
    clear told
    induction members with
    | nil => exact .nil _
    | cons m members ih =>
      obtain ⟨readable, legible⟩ := List.forall_mem_cons.mp legible
      obtain ⟨key, spelled⟩ := Option.isSome_iff_exists.mp readable
      exact .cons spelled (.extra (unknown key) tolerant) (ih legible)

/-! ## One field -/

section One

variable {name : String} {read : Reader β} {stands : Document → β → Prop} {default? : Option β}
  {closed : Bool} {make : β → α} {b? b?' : Option β}

/-- What a document does to the one field. -/
def puts1 (stands : Document → β → Prop) (_ : String) (_ : Option β) (d : Document)
    (s' : Option β) : Prop := ∃ b, stands d b ∧ s' = some b

theorem member1_iff {key : String} {d : Document} :
    (record1 name read default? closed make).Member (puts1 stands) key d b? b?' ↔
      (closed = true → key = name) ∧ Fills stands b? (if key = name then [d] else []) b?' := by
  by_cases same : key = name
  · subst same
    have found : (record1 key read default? closed make).field? key =
        (record1 key read default? closed make).fields.head? := by
      simp [Record.field?, record1]
    simp only [if_true, fills_cons_iff, fills_nil_iff]
    constructor
    · intro h
      cases h with
      | field found' fresh value =>
        cases found.symm.trans found'
        obtain ⟨b, told, rfl⟩ := value
        exact ⟨fun _ => trivial, Option.not_isSome_iff_eq_none.mp (Bool.eq_false_iff.mp fresh), b,
          told, rfl⟩
      | extra unknown _ => cases found.symm.trans unknown
    · rintro ⟨-, rfl, b, told, rfl⟩
      exact .field found rfl ⟨b, told, rfl⟩
  · have unknown : (record1 name read default? closed make).field? key = none := by
      simp [Record.field?, record1, Ne.symm same]
    simp only [same, if_false, fills_nil_iff]
    constructor
    · intro h
      cases h with
      | field found _ _ => cases found.symm.trans unknown
      | extra _ tolerant => exact ⟨Bool.eq_false_iff.mp tolerant, rfl⟩
    · rintro ⟨tolerant, rfl⟩
      exact .extra unknown (Bool.eq_false_iff.mpr tolerant)

theorem members1_iff {members : List (List Piece × Document)} :
    (record1 name read default? closed make).Members (puts1 stands) members b? b?' ↔
      WellNamed members ∧ (closed = true → ∀ m ∈ members, string? m.1 = some name) ∧
        Fills stands b? (valuesOf name members) b?' := by
  -- The first member may give the field, so what follows is read with more than `b?`.
  induction members generalizing b? with
  | nil =>
    constructor
    · intro h
      cases h
      exact ⟨fun _ h => absurd h List.not_mem_nil, fun _ _ h => absurd h List.not_mem_nil,
        .absent _⟩
    · rintro ⟨-, -, fills⟩
      cases fills
      exact .nil _
  | cons m members ih =>
    obtain ⟨k, d⟩ := m
    simp only [WellNamed, valuesOf_cons, fills_append_iff, List.forall_mem_cons]
    constructor
    · intro h
      cases h with
      | @cons _ key _ _ _ b₁ _ spelled first more =>
        obtain ⟨only, h⟩ := member1_iff.mp first
        obtain ⟨legible, known, more⟩ := ih.mp more
        rw [spelled]
        simp only [Option.some.injEq]
        exact ⟨⟨rfl, legible⟩, fun closed => ⟨only closed, known closed⟩, b₁, h, more⟩
    · rintro ⟨⟨readable, legible⟩, known, b₁, h, more⟩
      obtain ⟨key, spelled⟩ := Option.isSome_iff_exists.mp readable
      rw [spelled] at h known
      simp only [Option.some.injEq] at h known
      exact .cons spelled (member1_iff.mpr ⟨fun closed => (known closed).1, h⟩)
        (ih.mpr ⟨legible, fun closed => (known closed).2, more⟩)

theorem accepts_record1 (h : Accepts read stands) :
    Accepts (record1 name read default? closed make).read
      ((record1 name read default? closed make).Stands (puts1 stands)) := by
  refine Record.accepts fun f mem s => ?_
  obtain rfl := List.mem_singleton.mp mem
  exact h.map some

theorem byMembers_record1 {get : α → β} (whole : ∀ a, make (get a) = a)
    (got : ∀ b, get (make b) = b) :
    ByMembers ((record1 name read default? closed make).Stands (puts1 stands))
      [.ofField name stands default? get] closed := by
  intro members a
  constructor
  · intro stood
    cases stood with
    | object read done =>
      obtain ⟨legible, known, fills⟩ := members1_iff.mp read
      obtain ⟨b, known', rfl⟩ := Option.map_eq_some_iff.mp done
      refine ⟨legible, fun closed m mem => ⟨_, List.mem_singleton_self _, known closed m mem⟩, ?_⟩
      intro p mem
      obtain rfl := List.mem_singleton.mp mem
      exact takes_ofField_iff.mpr ⟨_, fills, by rw [got]; exact known'⟩
  · intro told
    obtain ⟨b?, fills, known'⟩ := takes_ofField_iff.mp (told.takes _ (List.mem_singleton_self _))
    refine .object (members1_iff.mpr ⟨told.named, fun closed m mem => ?_, fills⟩)
      (Option.map_eq_some_iff.mpr ⟨get a, known', whole a⟩)
    obtain ⟨p, mem, spelled⟩ := told.known closed m mem
    obtain rfl := List.mem_singleton.mp mem
    exact spelled

end One

/-! ## Two fields -/

theorem byMembers_record2 {name name' : String} {stands : Document → β → Prop}
    {stands' : Document → γ → Prop} {default? : Option β} {default?' : Option γ} {make : β → γ → α}
    {get : α → β} {get' : α → γ} (whole : ∀ a, make (get a) (get' a) = a)
    (got : ∀ b c, get (make b c) = b) (got' : ∀ b c, get' (make b c) = c) :
    ByMembers (Pair name stands default? name' stands' default?' make)
      [.ofField name stands default? get, .ofField name' stands' default?' get'] false := by
  intro members a
  constructor
  · intro pair
    cases pair with
    | @mk _ _ b? c? b c held first second known known' =>
      cases held with
      | object legible =>
        refine ⟨legible, fun strict => absurd strict Bool.false_ne_true,
          List.forall_mem_cons.mpr ⟨?_, List.forall_mem_singleton.mpr ?_⟩⟩
        · exact takes_ofField_iff.mpr ⟨_, first, by rw [got]; exact known⟩
        · exact takes_ofField_iff.mpr ⟨_, second, by rw [got']; exact known'⟩
  · intro told
    obtain ⟨first, takes⟩ := List.forall_mem_cons.mp told.takes
    obtain ⟨second, -⟩ := List.forall_mem_cons.mp takes
    obtain ⟨b?, first, known⟩ := takes_ofField_iff.mp first
    obtain ⟨c?, second, known'⟩ := takes_ofField_iff.mp second
    rw [← whole a]
    exact .mk (.object told.named) first second known known'

/-! ## Members that tell a value -/

namespace Value

mutual

/-- A document tells a value: its literals are spelled in any way, and the members of its objects
come in any order among others of other names. -/
inductive ToldBy : Value → Document → Prop where
  | null : ToldBy .null .null
  | bool (b : Bool) : ToldBy (.bool b) (.bool b)
  | int (z : Int) : ToldBy (.int z) (.number (.ofInt z))
  | string {s : String} {ps : List Piece} (spelled : string? ps = some s) :
      ToldBy (.string s) (.text ps)
  | array {values : List Value} {items : List Document} (told : AllToldBy values items) :
      ToldBy (.array values) (.array items)
  | object {given : List (String × Value)} {own extras members : List (List Piece × Document)}
      (told : MembersToldBy given own) (order : members.Perm (own ++ extras))
      (named : WellNamed members) (others : ∀ e ∈ extras, ∀ m ∈ given, string? e.1 ≠ some m.1) :
      ToldBy (.object given) (.object members)

inductive AllToldBy : List Value → List Document → Prop where
  | nil : AllToldBy [] []
  | cons {v : Value} {d : Document} {values : List Value} {items : List Document}
      (first : ToldBy v d) (more : AllToldBy values items) : AllToldBy (v :: values) (d :: items)

inductive MembersToldBy :
    List (String × Value) → List (List Piece × Document) → Prop where
  | nil : MembersToldBy [] []
  | cons {k : List Piece} {name : String} {v : Value} {d : Document}
      {given : List (String × Value)} {own : List (List Piece × Document)}
      (spelled : string? k = some name) (first : ToldBy v d) (more : MembersToldBy given own) :
      MembersToldBy ((name, v) :: given) ((k, d) :: own)

end

end Value

/-- The members of an object are some that are given, in any order among others. The names of those
are none of some fields. -/
structure Arranged (fields : List String) (given : List (String × Value))
    (extras members : List (List Piece × Document)) : Prop where
  own : ∃ own, Value.MembersToldBy given own ∧ members.Perm (own ++ extras)
  others : ∀ e ∈ extras, ∀ name ∈ fields, string? e.1 ≠ some name

section Arranged

variable {fields : List String} {given : List (String × Value)} {name : String} {v : Value}
  {own extras members members' : List (List Piece × Document)}

theorem valuesOf_append (name : String) (members members' : List (List Piece × Document)) :
    valuesOf name (members ++ members') = valuesOf name members ++ valuesOf name members' := by
  rw [valuesOf, List.filter_append, List.map_append]
  rfl

theorem valuesOf_perm (name : String) (order : members.Perm members') :
    (valuesOf name members).Perm (valuesOf name members') :=
  (order.filter _).map _

theorem valuesOf_eq_nil (others : ∀ m ∈ members, string? m.1 ≠ some name) :
    valuesOf name members = [] := by
  rw [valuesOf, List.map_eq_nil_iff, List.filter_eq_nil_iff]
  intro m mem
  simpa using others m mem

theorem name_of_mem {m : List Piece × Document} (told : Value.MembersToldBy given own)
    (mem : m ∈ own) : ∃ g ∈ given, string? m.1 = some g.1 := by
  induction given generalizing own with
  | nil =>
    cases told
    cases mem
  | cons g given ih =>
    cases told with
    | @cons k name v d _ own spelled first more =>
      rcases List.mem_cons.mp mem with rfl | mem
      · exact ⟨_, List.mem_cons_self, spelled⟩
      · obtain ⟨g', among, named⟩ := ih more mem
        exact ⟨g', List.mem_cons_of_mem _ among, named⟩

/-- The given members of a name are told, one by one, by the values of that name. -/
theorem allToldBy_valuesOf (told : Value.MembersToldBy given own) (name : String) :
    Value.AllToldBy ((given.filter (·.1 = name)).map Prod.snd) (valuesOf name own) := by
  induction given generalizing own with
  | nil =>
    cases told
    exact .nil
  | cons m given ih =>
    cases told with
    | @cons k key v d _ own spelled first more =>
      rw [valuesOf_cons, spelled]
      by_cases same : key = name
      · simp only [same, decide_true, List.filter_cons_of_pos, List.map_cons, if_true,
          List.singleton_append]
        exact .cons first (ih more)
      · have other : ¬ some key = some name := fun h => same (Option.some.inj h)
        simp only [same, other, decide_false, Bool.false_eq_true, not_false_eq_true,
          List.filter_cons_of_neg, if_false, List.nil_append]
        exact ih more

theorem Arranged.valuesOf_perm (arranged : Arranged fields given extras members)
    (field : name ∈ fields) : ∃ docs, (valuesOf name members).Perm docs ∧
      Value.AllToldBy ((given.filter (·.1 = name)).map Prod.snd) docs := by
  obtain ⟨own, told, order⟩ := arranged.own
  have none : valuesOf name extras = [] :=
    valuesOf_eq_nil fun e mem => arranged.others e mem name field
  refine ⟨valuesOf name own, ?_, allToldBy_valuesOf told name⟩
  have behind := Json.valuesOf_perm name order
  rwa [valuesOf_append, none, List.append_nil] at behind

theorem Arranged.valuesOf_nil (arranged : Arranged fields given extras members)
    (field : name ∈ fields) (absent : given.filter (·.1 = name) = []) :
    valuesOf name members = [] := by
  obtain ⟨docs, order, told⟩ := arranged.valuesOf_perm field
  rw [absent] at told
  cases told
  exact order.eq_nil

theorem Arranged.valuesOf_one (arranged : Arranged fields given extras members)
    (field : name ∈ fields) (present : given.filter (·.1 = name) = [(name, v)]) :
    ∃ d, valuesOf name members = [d] ∧ v.ToldBy d := by
  obtain ⟨docs, order, told⟩ := arranged.valuesOf_perm field
  rw [present] at told
  cases told with
  | @cons _ d _ _ first more =>
    cases more
    exact ⟨d, List.perm_singleton.mp order, first⟩

end Arranged

end WalletWatch.Json
