import WalletWatch.Message.Frame
import WalletWatch.Message.Payload
import WalletWatch.Proofs.Json.Objects
import WalletWatch.Proofs.Message.RoundTrip

set_option autoImplicit false

/-!
# Messages in objects of any make

A message is read from any object that has the members it is written with, in any order and among
others that nobody asked for. Only a request for a user is refused for a member too many. A field
that is given twice refuses every message, and a field may be left out if it has a default.
-/

namespace WalletWatch

open Json (Document Piece Value Accepts Arranged ByMembers Facet WellNamed valuesOf)

/-- How messages of a type are read from objects. The fields of the type are given, those of them
that have a default, and whether other members are refused. -/
structure ReadsObjects (α : Type) [Wire α] (fields defaults : List String) (closed : Bool) :
    Prop where
  tolerant : ∀ (a : α) given extras members t, Wire.toValue a = .object given →
    Arranged fields given extras members → (closed = true → extras = []) →
      (Document.object members).HeldBy t → WellNamed members → Wire.decode t = .ok a
  /-- A name that is no string refuses the message. -/
  named : ∀ members t, (Document.object members).HeldBy t → ¬ WellNamed members →
    ∀ a : α, Wire.decode t ≠ .ok a
  strict : closed = true → ∀ members t, (Document.object members).HeldBy t →
    (∃ m ∈ members, ∀ name ∈ fields, Json.string? m.1 ≠ some name) →
      ∀ a : α, Wire.decode t ≠ .ok a
  twice : ∀ name ∈ fields, ∀ members t, (Document.object members).HeldBy t →
    2 ≤ (valuesOf name members).length → ∀ a : α, Wire.decode t ≠ .ok a
  omitted : ∀ name ∈ fields, ∀ (a : α) given extras members t, Wire.toValue a = .object given →
    Arranged fields (given.filter (·.1 ≠ name)) extras members → (closed = true → extras = []) →
      (Document.object members).HeldBy t → WellNamed members →
        ((∃ b : α, Wire.decode t = .ok b) ↔ name ∈ defaults)
  /-- Nothing changes where more could follow the object. -/
  first : ∀ members t (a : α), (Document.object members).HeldBy t →
    (Wire.decodeFirst t = .ok a ↔ Wire.decode t = .ok a)

/-- The members that a value is written with tell a facet of it, or it is the default. -/
def WritesFacet {α : Type} (p : Facet α) (given : List (String × Value)) (a : α) : Prop :=
  (given.filter (·.1 = p.name) = [] ∧ p.default a) ∨
    ∃ v, given.filter (·.1 = p.name) = [(p.name, v)] ∧ ∀ d, v.ToldBy d → p.tells d a

/-- A type whose values are made of facets that can be told on their own. -/
structure Composed {α : Type} [Wire α] (stands : Document → α → Prop) (facets : List (Facet α))
    (closed : Bool) : Prop where
  distinct : ∀ p ∈ facets, ∀ q ∈ facets, p.name = q.name → p = q
  accepts : Accepts Wire.read stands
  byMembers : ByMembers stands facets closed
  writes : ∀ (a : α) given, Wire.toValue a = .object given →
    (∀ m ∈ given, ∃ p ∈ facets, m.1 = p.name) ∧ ∀ p ∈ facets, WritesFacet p given a
  /-- Each facet may come from another value. -/
  mixes : ∀ source : String → α, ∃ a, ∀ p ∈ facets, ∀ docs,
    p.Takes docs (source p.name) → p.Takes docs a

theorem WritesFacet.takes {α : Type} {p : Facet α} {a : α} {fields : List String}
    {given given' : List (String × Value)} {extras members : List (List Piece × Document)}
    (writes : WritesFacet p given a) (field : p.name ∈ fields)
    (same : given'.filter (·.1 = p.name) = given.filter (·.1 = p.name))
    (arranged : Arranged fields given' extras members) :
    p.Takes (valuesOf p.name members) a := by
  rcases writes with ⟨absent, default⟩ | ⟨v, present, tells⟩
  · exact .inl ⟨arranged.valuesOf_nil field (same.trans absent), default⟩
  · obtain ⟨d, one, told⟩ := arranged.valuesOf_one field (same.trans present)
    exact .inr ⟨d, one, tells d told⟩

theorem known_of_arranged {α : Type} {facets : List (Facet α)} {fields : List String}
    {given : List (String × Value)} {members : List (List Piece × Document)}
    (written : ∀ m ∈ given, ∃ p ∈ facets, m.1 = p.name)
    (arranged : Arranged fields given [] members) :
    ∀ m ∈ members, ∃ p ∈ facets, Json.string? m.1 = some p.name := by
  intro m mem
  obtain ⟨own, told, order⟩ := arranged.own
  rw [List.append_nil] at order
  obtain ⟨g, among, named⟩ := Json.name_of_mem told (order.mem_iff.mp mem)
  obtain ⟨p, facet, same⟩ := written g among
  exact ⟨p, facet, by rw [named, same]⟩

namespace Composed

variable {α : Type} [Wire α] {stands : Document → α → Prop} {facets : List (Facet α)}
  {closed : Bool} {given : List (String × Value)} {extras members : List (List Piece × Document)}
  {a : α} {t : Text}

theorem decode_iff (c : Composed stands facets closed) (held : (Document.object members).HeldBy t)
    (a : α) : Wire.decode t = .ok a ↔ Json.Tells facets closed members a :=
  (c.accepts.decode_of_heldBy held a).trans (c.byMembers members a)

theorem tells_of_arranged (c : Composed stands facets closed)
    (written : Wire.toValue a = .object given)
    (arranged : Arranged (facets.map Facet.name) given extras members)
    (only : closed = true → extras = []) (named : WellNamed members) :
    Json.Tells facets closed members a := by
  obtain ⟨among, writes⟩ := c.writes a given written
  refine ⟨named, fun strict => ?_, fun p facet => ?_⟩
  · obtain rfl := only strict
    exact known_of_arranged among arranged
  · exact (writes p facet).takes (List.mem_map_of_mem facet) rfl arranged

/-- Where a member is left out, all depends on the default of its facet. -/
theorem decodes_without_iff (c : Composed stands facets closed)
    (written : Wire.toValue a = .object given) {p : Facet α} (facet : p ∈ facets)
    (arranged : Arranged (facets.map Facet.name) (given.filter (·.1 ≠ p.name)) extras members)
    (only : closed = true → extras = []) (held : (Document.object members).HeldBy t)
    (named : WellNamed members) :
    (∃ b : α, Wire.decode t = .ok b) ↔ ∃ b, p.default b := by
  have silent : valuesOf p.name members = [] := by
    refine arranged.valuesOf_nil (List.mem_map_of_mem facet) ?_
    rw [List.filter_filter, List.filter_eq_nil_iff]
    simp
  constructor
  · rintro ⟨b, read⟩
    have takes := ((c.decode_iff held b).mp read).takes p facet
    rw [silent, Facet.takes_nil_iff] at takes
    exact ⟨b, takes⟩
  · rintro ⟨b, default⟩
    obtain ⟨among, writes⟩ := c.writes a given written
    -- The facet is taken from `b`, where it is the default, and all others from `a`.
    obtain ⟨m, mixed⟩ := c.mixes fun name => if name = p.name then b else a
    refine ⟨m, (c.decode_iff held m).mpr ⟨named, fun strict => ?_, fun q facet' => ?_⟩⟩
    · obtain rfl := only strict
      exact known_of_arranged (fun g mem => among g (List.mem_of_mem_filter mem)) arranged
    · refine mixed q facet' _ ?_
      by_cases same : q.name = p.name
      · obtain rfl := c.distinct q facet' p facet same
        rw [if_pos rfl, silent, Facet.takes_nil_iff]
        exact default
      · rw [if_neg same]
        refine (writes q facet').takes (List.mem_map_of_mem facet') ?_ arranged
        rw [List.filter_filter]
        refine List.filter_congr fun g _ => ?_
        by_cases other : g.1 = q.name <;> simp [other, same]

theorem readsObjects (c : Composed stands facets closed) {defaults : List String}
    (known : ∀ p ∈ facets, (∃ a, p.default a) ↔ p.name ∈ defaults) :
    ReadsObjects α (facets.map Facet.name) defaults closed where
  tolerant a given extras members t written arranged only held named :=
    (c.decode_iff held a).mpr (c.tells_of_arranged written arranged only named)
  named members t held odd a read := odd ((c.decode_iff held a).mp read).named
  strict closed members t held := by
    rintro ⟨m, mem, odd⟩ a read
    obtain ⟨p, facet, named⟩ := ((c.decode_iff held a).mp read).known closed m mem
    exact odd p.name (List.mem_map_of_mem facet) named
  twice name field members t held many a read := by
    obtain ⟨p, facet, rfl⟩ := List.mem_map.mp field
    have one := (((c.decode_iff held a).mp read).takes p facet).length_le
    omega
  omitted name field a given extras members t written arranged only held named := by
    obtain ⟨p, facet, rfl⟩ := List.mem_map.mp field
    exact (c.decodes_without_iff written facet arranged only held named).trans (known p facet)
  first members t a held :=
    (c.accepts.decodeFirst_of_heldBy held a).trans (c.accepts.decode_of_heldBy held a).symm

end Composed

/-! ## Records -/

section Records

variable {α β γ : Type} {name name' : String} {stands : Document → β → Prop}
  {stands' : Document → γ → Prop} {default? : Option β} {default?' : Option γ} (get : α → β)
  (get' : α → γ)

theorem writesFacet_first {v v' : Value} {a : α} (differ : name ≠ name')
    (tells : ∀ d, v.ToldBy d → stands d (get a)) :
    WritesFacet (.ofField name stands default? get) [(name, v), (name', v')] a :=
  .inr ⟨v, by simp [Facet.ofField, differ.symm], tells⟩

theorem writesFacet_second {v v' : Value} {a : α} (differ : name ≠ name')
    (tells : ∀ d, v'.ToldBy d → stands' d (get' a)) :
    WritesFacet (.ofField name' stands' default?' get') [(name, v), (name', v')] a :=
  .inr ⟨v', by simp [Facet.ofField, differ], tells⟩

variable [Wire α]

theorem composed_record1 {read : Json.Reader β} {closed : Bool} {make : β → α}
    (reads : Wire.read = (Json.record1 name read default? closed make).read)
    (h : Accepts read stands) (whole : ∀ a, make (get a) = a) (got : ∀ b, get (make b) = b)
    (writes : ∀ a, ∃ v, Wire.toValue a = .object [(name, v)] ∧
      ∀ d, v.ToldBy d → stands d (get a)) :
    Composed ((Json.record1 name read default? closed make).Stands (Json.puts1 stands))
      [.ofField name stands default? get] closed where
  distinct p facet q facet' _ := by
    rw [List.mem_singleton.mp facet, List.mem_singleton.mp facet']
  accepts := by
    rw [reads]
    exact Json.accepts_record1 h
  byMembers := Json.byMembers_record1 whole got
  writes a given written := by
    obtain ⟨v, form, tells⟩ := writes a
    obtain rfl := Value.object.inj (form.symm.trans written)
    refine ⟨fun m mem => ⟨_, List.mem_singleton_self _, ?_⟩, fun p facet => ?_⟩
    · rw [List.mem_singleton.mp mem]
      rfl
    · obtain rfl := List.mem_singleton.mp facet
      exact .inr ⟨v, by simp [Facet.ofField], tells⟩
  mixes source := by
    refine ⟨source name, fun p facet docs takes => ?_⟩
    obtain rfl := List.mem_singleton.mp facet
    exact takes

theorem composed_record2 {read : Json.Reader β} {read' : Json.Reader γ} {make : β → γ → α}
    (reads : Wire.read = (Json.record2 name read default? name' read' default?' make).read)
    (differ : name ≠ name') (h : Accepts read stands) (h' : Accepts read' stands')
    (whole : ∀ a, make (get a) (get' a) = a) (got : ∀ b c, get (make b c) = b)
    (got' : ∀ b c, get' (make b c) = c)
    (writes : ∀ (a : α) given, Wire.toValue a = .object given →
      (∀ m ∈ given, m.1 = name ∨ m.1 = name') ∧
        WritesFacet (.ofField name stands default? get) given a ∧
          WritesFacet (.ofField name' stands' default?' get') given a) :
    Composed (Json.Pair name stands default? name' stands' default?' make)
      [.ofField name stands default? get, .ofField name' stands' default?' get'] false where
  distinct p facet q facet' same := by
    simp only [List.mem_cons, List.not_mem_nil, or_false] at facet facet'
    rcases facet with rfl | rfl <;> rcases facet' with rfl | rfl
    · rfl
    · exact absurd same differ
    · exact absurd same.symm differ
    · rfl
  accepts := by
    rw [reads]
    exact Json.accepts_record2 differ h h'
  byMembers := Json.byMembers_record2 whole got got'
  writes a given written := by
    obtain ⟨among, first, second⟩ := writes a given written
    refine ⟨fun m mem => ?_, ?_⟩
    · rcases among m mem with named | named
      · exact ⟨_, List.mem_cons_self, named⟩
      · exact ⟨_, List.mem_cons_of_mem _ (List.mem_singleton_self _), named⟩
    · exact List.forall_mem_cons.mpr ⟨first, List.forall_mem_singleton.mpr second⟩
  mixes source := by
    refine ⟨make (get (source name)) (get' (source name')), ?_⟩
    refine List.forall_mem_cons.mpr ⟨fun docs takes => ?_, List.forall_mem_singleton.mpr ?_⟩
    · exact Json.takes_congr (got _ _).symm takes
    · exact fun docs takes => Json.takes_congr (got' _ _).symm takes

variable {get get'} {whole : Document → α → Prop} {defaults : List String} {closed : Bool}

theorem Composed.readsObjects1
    (c : Composed whole [.ofField name stands default? get] closed) (any : ∀ b, ∃ a, get a = b)
    (known : default?.isSome = true ↔ name ∈ defaults) :
    ReadsObjects α [name] defaults closed :=
  c.readsObjects (List.forall_mem_singleton.mpr ((Json.exists_default_iff any).trans known))

theorem Composed.readsObjects2
    (c : Composed whole
      [.ofField name stands default? get, .ofField name' stands' default?' get'] closed)
    (any : ∀ b, ∃ a, get a = b) (any' : ∀ b, ∃ a, get' a = b)
    (known : default?.isSome = true ↔ name ∈ defaults)
    (known' : default?'.isSome = true ↔ name' ∈ defaults) :
    ReadsObjects α [name, name'] defaults closed := by
  refine c.readsObjects (List.forall_mem_cons.mpr ⟨?_, List.forall_mem_singleton.mpr ?_⟩)
  · exact (Json.exists_default_iff any).trans known
  · exact (Json.exists_default_iff any').trans known'

end Records

/-! ## Values of fields -/

open Json (IsString IsInt64 IsList Names)

theorem isString_of_told {s : String} {d : Document} (told : (Value.string s).ToldBy d) :
    IsString d s := by
  cases told with
  | string spelled => exact ⟨_, rfl, spelled⟩

theorem isInt64_of_told {z : Int64} {d : Document} (told : (Wire.toValue z).ToldBy d) :
    IsInt64 d z := by
  cases told
  exact ⟨_, rfl, Json.int64?_ofInt z⟩

theorem isList_of_told {α : Type} [Wire α] {stands : Document → α → Prop}
    (item : ∀ (a : α) d, (Wire.toValue a).ToldBy d → stands d a) {l : List α} {d : Document}
    (told : (Value.array (l.map Wire.toValue)).ToldBy d) : IsList stands d l := by
  cases told with
  | @array _ items told =>
    refine ⟨items, rfl, ?_⟩
    induction l generalizing items with
    | nil =>
      cases told
      exact .nil
    | cons a l ih =>
      cases told with
      | cons first more => exact .cons (item a _ first) (ih more)

/-! ## The messages -/

theorem UserInfo.readsObjects :
    ReadsObjects UserInfo ["name", "membership"] ["membership"] false := by
  have composed := composed_record2 (α := UserInfo) name membership rfl (by decide)
    Json.accepts_string (Json.accepts_name fun s => some (Membership.ofName s)) (fun _ => rfl)
    (fun _ _ => rfl) (fun _ _ => rfl) (by
      rintro u given ⟨⟩
      refine ⟨by simp, writesFacet_first _ (by decide) fun d => isString_of_told,
        writesFacet_second _ (by decide) fun d told => ?_⟩
      obtain ⟨ps, rfl, spelled⟩ := isString_of_told told
      exact ⟨_, .text spelled, congrArg some (Membership.ofName_name _)⟩)
  exact composed.readsObjects2 (fun b => ⟨⟨b, .unknown⟩, rfl⟩) (fun m => ⟨⟨"", m⟩, rfl⟩)
    (by decide) (by decide)

theorem PriceRequest.readsObjects : ReadsObjects PriceRequest [] [] false := by
  let r : Json.Record Unit PriceRequest := { start := (), fields := [], done := fun _ => some {} }
  have composed : Composed (r.Stands fun _ _ _ _ => False) [] false :=
    { distinct := fun p facet => absurd facet List.not_mem_nil
      accepts := Json.Record.accepts fun f mem => absurd mem List.not_mem_nil
      byMembers := Json.byMembers_empty rfl rfl rfl fun _ => rfl
      writes := by
        rintro a given ⟨⟩
        exact ⟨fun m mem => absurd mem List.not_mem_nil, fun p mem => absurd mem List.not_mem_nil⟩
      mixes := fun _ => ⟨{}, fun p facet => absurd facet List.not_mem_nil⟩ }
  exact composed.readsObjects fun p facet => absurd facet List.not_mem_nil

theorem PriceQuote.readsObjects : ReadsObjects PriceQuote ["price"] [] false := by
  have composed := composed_record1 (α := PriceQuote) price rfl Json.accepts_int64
    (fun _ => rfl) (fun _ => rfl) fun q => ⟨_, rfl, fun d => isInt64_of_told⟩
  exact composed.readsObjects1 (fun z => ⟨⟨z⟩, rfl⟩) (by decide)

theorem BalanceRequest.readsObjects :
    ReadsObjects BalanceRequest [field] [field] false := by
  have composed := composed_record1 (α := BalanceRequest) perAddress rfl Json.accepts_bool
    (fun _ => rfl) (fun _ => rfl) fun r => ⟨.bool r.perAddress, rfl, fun d told => by
      cases told
      rfl⟩
  exact composed.readsObjects1 (fun b => ⟨⟨b⟩, rfl⟩) (by decide)

theorem ResolveRequest.readsObjects : ReadsObjects ResolveRequest ["token"] [] true := by
  have composed := composed_record1 (α := ResolveRequest) token rfl Json.accepts_string
    (fun _ => rfl) (fun _ => rfl) fun r => ⟨_, rfl, fun d => isString_of_told⟩
  exact composed.readsObjects1 (fun s => ⟨⟨s⟩, rfl⟩) (by decide)

theorem FailureBody.readsObjects : ReadsObjects FailureBody ["code", "message"] [] false := by
  have composed := composed_record2 (α := FailureBody) code message rfl (by decide)
    Json.accepts_string Json.accepts_string (fun _ => rfl) (fun _ _ => rfl) (fun _ _ => rfl) (by
      rintro b given ⟨⟩
      exact ⟨by simp, writesFacet_first _ (by decide) fun d => isString_of_told,
        writesFacet_second _ (by decide) fun d => isString_of_told⟩)
  exact composed.readsObjects2 (fun b => ⟨⟨b, ""⟩, rfl⟩) (fun m => ⟨⟨"", m⟩, rfl⟩)
    (by decide) (by decide)

/-- The documents that stand for a row. -/
def AddressBalance.Row : Document → AddressBalance → Prop :=
  Json.Pair "address" IsString none "balance" IsInt64 none mk

theorem AddressBalance.composed : Composed Row
    [.ofField "address" IsString none address, .ofField "balance" IsInt64 none balance] false :=
  composed_record2 address balance rfl (by decide) Json.accepts_string Json.accepts_int64
    (fun _ => rfl) (fun _ _ => rfl) (fun _ _ => rfl) (by
      rintro b given ⟨⟩
      exact ⟨by simp, writesFacet_first _ (by decide) fun d => isString_of_told,
        writesFacet_second _ (by decide) fun d => isInt64_of_told⟩)

theorem AddressBalance.readsObjects :
    ReadsObjects AddressBalance ["address", "balance"] [] false :=
  composed.readsObjects2 (fun s => ⟨⟨s, 0⟩, rfl⟩) (fun z => ⟨⟨"", z⟩, rfl⟩) (by decide) (by decide)

theorem AddressBalance.row_of_told (r : AddressBalance) (d : Document)
    (told : (Wire.toValue r).ToldBy d) : Row d r := by
  cases told with
  | @object _ own extras members told order named others =>
    have arranged : Arranged ["address", "balance"]
        [("address", .string r.address), ("balance", Wire.toValue r.balance)] extras members := by
      refine ⟨⟨own, told, order⟩, fun e mem => List.forall_mem_cons.mpr ⟨?_, ?_⟩⟩
      · exact others e mem ("address", _) List.mem_cons_self
      · refine List.forall_mem_singleton.mpr ?_
        exact others e mem ("balance", _) (List.mem_cons_of_mem _ (List.mem_singleton_self _))
    exact (composed.byMembers members r).mpr (composed.tells_of_arranged rfl arranged nofun named)

theorem Balance.writes (b : Balance) (given : List (String × Value))
    (written : Wire.toValue b = .object given) :
    (∀ m ∈ given, m.1 = "balance" ∨ m.1 = "addresses") ∧
      WritesFacet (.ofField "balance" IsInt64 none total) given b ∧
        WritesFacet (.ofField "addresses" (IsList AddressBalance.Row) (some []) addresses)
          given b := by
  obtain ⟨total, addresses⟩ := b
  cases addresses with
  | nil =>
    cases written
    refine ⟨by simp, .inr ⟨_, by simp [Facet.ofField], fun d => isInt64_of_told⟩, ?_⟩
    exact .inl ⟨by simp [Facet.ofField], rfl⟩
  | cons r rows =>
    cases written
    refine ⟨by simp, writesFacet_first _ (by decide) fun d => isInt64_of_told,
      writesFacet_second _ (by decide) fun d => isList_of_told AddressBalance.row_of_told⟩

theorem Balance.readsObjects :
    ReadsObjects Balance ["balance", "addresses"] ["addresses"] false := by
  have composed := composed_record2 (α := Balance) total addresses rfl (by decide)
    Json.accepts_int64 (Json.accepts_list AddressBalance.composed.accepts) (fun _ => rfl)
    (fun _ _ => rfl) (fun _ _ => rfl) writes
  exact composed.readsObjects2 (fun z => ⟨⟨z, []⟩, rfl⟩) (fun l => ⟨⟨0, l⟩, rfl⟩)
    (by decide) (by decide)

/-- Every message is read from the members it is written with, in any order and among any others
whose names are strings; only a request for a user is refused for these. A field given twice refuses
a message, and a field may be left out exactly if it has a default. -/
theorem messages_are_read_tolerantly :
    ReadsObjects UserInfo ["name", "membership"] ["membership"] false ∧
    ReadsObjects PriceRequest [] [] false ∧
    ReadsObjects PriceQuote ["price"] [] false ∧
    ReadsObjects BalanceRequest [BalanceRequest.field] [BalanceRequest.field] false ∧
    ReadsObjects AddressBalance ["address", "balance"] [] false ∧
    ReadsObjects Balance ["balance", "addresses"] ["addresses"] false ∧
    ReadsObjects FailureBody ["code", "message"] [] false ∧
    ReadsObjects ResolveRequest ["token"] [] true :=
  ⟨UserInfo.readsObjects, PriceRequest.readsObjects, PriceQuote.readsObjects,
    BalanceRequest.readsObjects, AddressBalance.readsObjects, Balance.readsObjects,
    FailureBody.readsObjects, ResolveRequest.readsObjects⟩

namespace PriceQuote

/-- The name of the one field, with its first letter escaped. -/
def escapedName : List Piece := .unit 0x70 :: "rice".toList.map .char

/-- A member that nobody asks for, with a number beyond all doubles in it. -/
def stray (name : List Piece) : List Piece × Document :=
  (name, .object [([.unit 0xd800], .array [.number { whole := 1, exponent := some (false, 999) }])])

/-- A price behind a member of some other name. -/
def behind (name : List Piece) : List (List Piece × Document) :=
  [stray name, (escapedName, .number (.ofInt 7))]

theorem arranged_behind {name : List Piece} (other : Json.string? name ≠ some "price") :
    Arranged ["price"] [("price", .int 7)] [stray name] (behind name) where
  own := ⟨[(escapedName, .number (.ofInt 7))], .cons (by decide +kernel) (.int 7) .nil,
    List.Perm.swap _ _ _⟩
  others e mem field known := by
    obtain rfl := List.mem_singleton.mp mem
    obtain rfl := List.mem_singleton.mp known
    exact other

/-- The text of a price behind a member whose name is spelled in some way. -/
def textBehind (name : String) : Text :=
  .ofString ("\x7b \"" ++ name ++ "\": \x7b\"\\ud800\":[1E999]\x7d,\n\"\\u0070rice\" :7\x7d")

end PriceQuote

theorem price_is_read_behind_another_member :
    (Document.object (PriceQuote.behind [.char 'x'])).HeldBy (PriceQuote.textBehind "x") ∧
    Wire.decode (PriceQuote.textBehind "x") = .ok (PriceQuote.mk 7) := by
  have held : (Document.object (PriceQuote.behind [.char 'x'])).HeldBy
      (PriceQuote.textBehind "x") := (Json.heldBy_iff _ _).mpr (by decide +kernel)
  have other : Json.string? [.char 'x'] ≠ some "price" := by decide +kernel
  have named : WellNamed (PriceQuote.behind [.char 'x']) := by
    unfold WellNamed
    decide +kernel
  obtain ⟨-, -, price, -⟩ := messages_are_read_tolerantly
  exact ⟨held, price.tolerant ⟨7⟩ _ _ _ _ rfl (PriceQuote.arranged_behind other) nofun held named⟩

/-- Half of a character is a name in form, and none that a reader can look up. -/
theorem half_a_character_names_no_member :
    let name : List Piece := [.unit 0xd800]
    Wire.toValue (PriceQuote.mk 7) = .object [("price", .int 7)] ∧
    Arranged ["price"] [("price", .int 7)] [PriceQuote.stray name] (PriceQuote.behind name) ∧
    (Document.object (PriceQuote.behind name)).HeldBy (PriceQuote.textBehind "\\ud800") ∧
    Wire.decode (PriceQuote.textBehind "\\ud800") ≠ .ok (PriceQuote.mk 7) := by
  intro name
  have unread : (Wire.decode (α := PriceQuote) (PriceQuote.textBehind "\\ud800")).isOk = false := by
    decide +kernel
  refine ⟨rfl, PriceQuote.arranged_behind (by decide +kernel),
    (Json.heldBy_iff _ _).mpr (by decide +kernel), fun read => ?_⟩
  rw [read] at unread
  cases unread

end WalletWatch
