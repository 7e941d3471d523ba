import Mathlib.Data.List.Pairwise
import WalletWatch.Config.Settings

set_option autoImplicit false

/-!
# Sections of a document

What a value of a document stands for, and what a section says under its keys. A section is read if
its keys are known and different and each value stands for something of its type; then it says under
each key what stands there, or what stands for it where the key is left out. The order of its
entries says nothing.
-/

namespace WalletWatch.Settings

/-- A key of a map and what stands under it. -/
abbrev Entry := Yaml.Node × Yaml.Node

/-! ## Values -/

/-- A scalar of some text, however it is tagged and written. -/
def IsText (n : Yaml.Node) (s : String) : Prop := ∃ tag? style, n = .scalar tag? style s

/-- A scalar whose text is read as a value of some type: without quotes, or in a block that is
tagged with the type. -/
inductive IsBare (type : String) : Yaml.Node → String → Prop where
  | plain (tag? : Option String) (s : String) : IsBare type (.scalar tag? .plain s) s
  | block (s : String) : IsBare type (.scalar (some type) .literal s) s

/-- A word for yes or no. -/
inductive IsTruth (n : Yaml.Node) : Bool → Prop where
  | yes {s : String} (bare : IsBare "tag:yaml.org,2002:bool" n s)
      (word : s ∈ ["true", "True", "TRUE"]) : IsTruth n true
  | no {s : String} (bare : IsBare "tag:yaml.org,2002:bool" n s)
      (word : s ∈ ["false", "False", "FALSE"]) : IsTruth n false

/-- A scalar with a tag of one's own, which is the name behind an exclamation mark. -/
def IsTagged (n : Yaml.Node) (name : String) : Prop :=
  ∃ style s, n = .scalar (some ("!" ++ name)) style s

/-- The name of a role, as a text or as a tag on nothing. -/
inductive IsRole (n : Yaml.Node) (r : Role) : Prop where
  | named (text : IsText n r.name) (untagged : ∀ name, ¬ IsTagged n name)
  | tagged {s : String} (tag : n = .scalar (some ("!" ++ r.name)) .plain s)
      (nothing : s ∈ ["", "null", "Null", "NULL", "~"])

/-- Digits of a radix, and the number to which they continue another one. -/
inductive Digits (digit? : Char → Option Nat) (radix : Nat) : Nat → List Char → Nat → Prop where
  | nil (v : Nat) : Digits digit? radix v [] v
  | cons {v d w : Nat} {c : Char} {cs : List Char} (digit : digit? c = some d)
      (more : Digits digit? radix (v * radix + d) cs w) : Digits digit? radix v (c :: cs) w

/-- Numbers without a sign: decimal ones have no needless zero in front, others have a mark. -/
inductive Numeral : List Char → Nat → Prop where
  | decimal {c : Char} {cs : List Char} {v : Nat} (digits : Digits Json.digit? 10 0 (c :: cs) v)
      (needed : c = '0' → cs = []) : Numeral (c :: cs) v
  | hexadecimal {c : Char} {cs : List Char} {v : Nat}
      (digits : Digits Json.hexDigit? 16 0 (c :: cs) v) : Numeral ('0' :: 'x' :: c :: cs) v
  | octal {c : Char} {cs : List Char} {v : Nat} (digits : Digits octalDigit? 8 0 (c :: cs) v) :
      Numeral ('0' :: 'o' :: c :: cs) v
  | binary {c : Char} {cs : List Char} {v : Nat} (digits : Digits binaryDigit? 2 0 (c :: cs) v) :
      Numeral ('0' :: 'b' :: c :: cs) v

/-- A number below a bound, with or without a plus sign. -/
def IsNumber (bound : Nat) (n : Yaml.Node) (v : Nat) : Prop :=
  ∃ s cs, IsBare "tag:yaml.org,2002:int" n s ∧ (s.toList = cs ∨ s.toList = '+' :: cs) ∧
    Numeral cs v ∧ v < bound

theorem text?_eq_some_iff {n : Yaml.Node} {s : String} : text? n = some s ↔ IsText n s := by
  cases n with
  | scalar tag? style t =>
    constructor
    · rintro ⟨⟩
      exact ⟨tag?, style, rfl⟩
    · rintro ⟨_, _, ⟨⟩⟩
      rfl
  | list tag? items => exact ⟨nofun, nofun⟩
  | map tag? entries => exact ⟨nofun, nofun⟩

theorem bare?_eq_some_iff {type : String} {n : Yaml.Node} {s : String} :
    bare? type n = some s ↔ IsBare type n s := by
  constructor
  · intro h
    unfold bare? at h
    split at h
    · cases h
      exact .plain _ s
    · split at h
      · rename_i same
        cases h
        subst same
        exact .block s
      · cases h
    · cases h
  · rintro (_ | _)
    · rfl
    · exact if_pos rfl

theorem truth?_eq_some_iff {n : Yaml.Node} {b : Bool} : truth? n = some b ↔ IsTruth n b := by
  unfold truth?
  rw [Option.bind_eq_some_iff]
  constructor
  · rintro ⟨s, bare, h⟩
    have bare := bare?_eq_some_iff.mp bare
    split at h
    · rename_i word
      cases h
      exact .yes bare (List.contains_iff_mem.mp word)
    · split at h
      · rename_i word
        cases h
        exact .no bare (List.contains_iff_mem.mp word)
      · cases h
  · intro h
    cases h with
    | yes bare word =>
      exact ⟨_, bare?_eq_some_iff.mpr bare, if_pos (List.contains_iff_mem.mpr word)⟩
    | @no s bare word =>
      have other : ∀ t ∈ ["false", "False", "FALSE"],
          ["true", "True", "TRUE"].contains t = false := by
        decide
      refine ⟨s, bare?_eq_some_iff.mpr bare, ?_⟩
      rw [other s word, if_neg Bool.false_ne_true, if_pos (List.contains_iff_mem.mpr word)]

theorem ofName?_eq_some_iff {s : String} {r : Role} : Role.ofName? s = some r ↔ s = r.name := by
  constructor
  · intro h
    unfold Role.ofName? at h
    split at h <;> cases h <;> rfl
  · rintro rfl
    cases r <;> rfl

theorem ownName?_eq_some_iff {n : Yaml.Node} {name : String} :
    ownName? n = some name ↔ IsTagged n name := by
  constructor
  · intro h
    unfold ownName? at h
    split at h
    · rename_i tag style s
      split at h
      · rename_i cs spelt
        cases h
        refine ⟨style, s, ?_⟩
        have same : tag = "!" ++ String.ofList cs := by
          have behind : (String.ofList cs).toList = cs := String.toList_ofList
          rw [← String.toList_inj, spelt, String.toList_append, behind]
          rfl
        rw [same]
      · cases h
    · cases h
  · rintro ⟨style, s, rfl⟩
    have spelt : ("!" ++ name).toList = '!' :: name.toList := String.toList_append
    simp only [ownName?, spelt, String.ofList_toList]

theorem isNull_iff {n : Yaml.Node} : isNull n = true ↔
    ∃ tag? s, n = .scalar tag? .plain s ∧ s ∈ ["", "null", "Null", "NULL", "~"] := by
  constructor
  · intro h
    unfold isNull at h
    split at h
    · exact ⟨_, _, rfl, List.contains_iff_mem.mp h⟩
    · cases h
  · rintro ⟨tag?, s, rfl, word⟩
    exact List.contains_iff_mem.mpr word

theorem role?_of_tagged {n : Yaml.Node} {name : String} (h : IsTagged n name) :
    role? n = if isNull n then Role.ofName? name else none := by
  rw [role?, ownName?_eq_some_iff.mpr h]

theorem role?_of_untagged {n : Yaml.Node} (h : ∀ name, ¬ IsTagged n name) :
    role? n = (text? n).bind Role.ofName? := by
  have none : ownName? n = none := Option.eq_none_iff_forall_ne_some.mpr fun name own =>
    h name (ownName?_eq_some_iff.mp own)
  rw [role?, none]

theorem role?_eq_some_iff {n : Yaml.Node} {r : Role} : role? n = some r ↔ IsRole n r := by
  constructor
  · intro h
    by_cases own : ∃ name, IsTagged n name
    · obtain ⟨name, style, s, rfl⟩ := own
      rw [role?_of_tagged ⟨style, s, rfl⟩] at h
      split at h
      · rename_i null
        obtain ⟨_, _, same, nothing⟩ := isNull_iff.mp null
        cases same
        rw [ofName?_eq_some_iff.mp h]
        exact .tagged rfl nothing
      · cases h
    · have untagged := not_exists.mp own
      rw [role?_of_untagged untagged] at h
      obtain ⟨s, text, named⟩ := Option.bind_eq_some_iff.mp h
      rw [ofName?_eq_some_iff.mp named] at text
      exact .named (text?_eq_some_iff.mp text) untagged
  · rintro (⟨text, untagged⟩ | ⟨rfl, nothing⟩)
    · rw [role?_of_untagged untagged, text?_eq_some_iff.mpr text]
      exact ofName?_eq_some_iff.mpr rfl
    · rw [role?_of_tagged ⟨_, _, rfl⟩, if_pos (isNull_iff.mpr ⟨_, _, rfl, nothing⟩)]
      exact ofName?_eq_some_iff.mpr rfl

/-! ### Numbers -/

section Digits

variable {digit? : Char → Option Nat} {radix : Nat}

theorem takeDigits_eq_iff {v w m n : Nat} {cs : List Char} :
    SocketAddress.takeDigits digit? radix v n cs = (w, m, []) ↔
      Digits digit? radix v cs w ∧ m = n + cs.length := by
  induction cs generalizing v n with
  | nil =>
    constructor
    · rintro ⟨⟩
      exact ⟨.nil _, rfl⟩
    · rintro ⟨⟨⟩, rfl⟩
      rfl
  | cons c cs ih =>
    unfold SocketAddress.takeDigits
    cases digit : digit? c with
    | none =>
      refine ⟨nofun, ?_⟩
      rintro ⟨digits, -⟩
      cases digits with
      | cons digit' _ => exact nomatch digit.symm.trans digit'
    | some d =>
      simp only [ih, List.length_cons, Nat.add_assoc, Nat.add_comm 1]
      refine and_congr_left fun _ => ⟨.cons digit, fun digits => ?_⟩
      cases digits with
      | cons digit' more =>
        cases digit.symm.trans digit'
        exact more

theorem digits?_eq_some_iff {cs : List Char} {v : Nat} :
    digits? digit? radix cs = some v ↔ cs ≠ [] ∧ Digits digit? radix 0 cs v := by
  unfold digits?
  constructor
  · intro h
    split at h
    · rename_i w n taken
      obtain ⟨digits, length⟩ := takeDigits_eq_iff.mp taken
      split at h
      · cases h
      · rename_i some_read
        cases h
        refine ⟨?_, digits⟩
        rintro rfl
        exact some_read (by simpa using length)
    · cases h
  · rintro ⟨nonempty, digits⟩
    rw [takeDigits_eq_iff.mpr ⟨digits, rfl⟩]
    have length : ¬ 0 + cs.length = 0 := by simpa using nonempty
    exact if_neg length

end Digits

/-- The number that characters without a sign spell. -/
def unsigned? : List Char → Option Nat
  | '0' :: 'x' :: cs => digits? Json.hexDigit? 16 cs
  | '0' :: 'o' :: cs => digits? octalDigit? 8 cs
  | '0' :: 'b' :: cs => digits? binaryDigit? 2 cs
  | ['0'] => some 0
  | '0' :: _ => none
  | cs => digits? Json.digit? 10 cs

theorem natural?_eq (s : String) : natural? s =
    unsigned? (if s.toList.head? = some '+' then s.toList.drop 1 else s.toList) := rfl

theorem unsigned?_eq_some_iff {cs : List Char} {v : Nat} :
    unsigned? cs = some v ↔ Numeral cs v := by
  constructor
  · intro h
    unfold unsigned? at h
    split at h
    · obtain ⟨nonempty, digits⟩ := digits?_eq_some_iff.mp h
      obtain ⟨c, cs, rfl⟩ := List.exists_cons_of_ne_nil nonempty
      exact .hexadecimal digits
    · obtain ⟨nonempty, digits⟩ := digits?_eq_some_iff.mp h
      obtain ⟨c, cs, rfl⟩ := List.exists_cons_of_ne_nil nonempty
      exact .octal digits
    · obtain ⟨nonempty, digits⟩ := digits?_eq_some_iff.mp h
      obtain ⟨c, cs, rfl⟩ := List.exists_cons_of_ne_nil nonempty
      exact .binary digits
    · cases h
      exact .decimal (.cons (d := 0) rfl (.nil 0)) fun _ => rfl
    · cases h
    · rename_i other
      obtain ⟨nonempty, digits⟩ := digits?_eq_some_iff.mp h
      obtain ⟨c, cs, rfl⟩ := List.exists_cons_of_ne_nil nonempty
      refine .decimal digits ?_
      rintro rfl
      exact absurd rfl (other cs)
  · intro h
    cases h with
    | hexadecimal digits => exact digits?_eq_some_iff.mpr ⟨List.cons_ne_nil _ _, digits⟩
    | octal digits => exact digits?_eq_some_iff.mpr ⟨List.cons_ne_nil _ _, digits⟩
    | binary digits => exact digits?_eq_some_iff.mpr ⟨List.cons_ne_nil _ _, digits⟩
    | @decimal c cs v digits needed =>
      by_cases zero : c = '0'
      · subst zero
        cases needed rfl
        cases digits with
        | cons digit more =>
          cases digit
          cases more
          rfl
      · have plain : unsigned? (c :: cs) = digits? Json.digit? 10 (c :: cs) := by
          unfold unsigned?
          split <;> rename_i same <;> first | rfl | exact absurd (List.cons.inj same).1 zero
        rw [plain]
        exact digits?_eq_some_iff.mpr ⟨List.cons_ne_nil _ _, digits⟩

theorem Numeral.head?_ne {cs : List Char} {v : Nat} (h : Numeral cs v) : cs.head? ≠ some '+' := by
  cases h with
  | decimal digits _ =>
    rintro ⟨⟩
    cases digits with
    | cons digit _ => cases digit
  | hexadecimal _ => simp
  | octal _ => simp
  | binary _ => simp

theorem natural?_eq_some_iff {s : String} {v : Nat} :
    natural? s = some v ↔ ∃ cs, (s.toList = cs ∨ s.toList = '+' :: cs) ∧ Numeral cs v := by
  rw [natural?_eq, unsigned?_eq_some_iff]
  constructor
  · intro h
    split at h
    · rename_i plus
      refine ⟨_, .inr ?_, h⟩
      obtain ⟨cs, spelt⟩ := List.head?_eq_some_iff.mp plus
      rw [spelt, List.drop_one, List.tail_cons]
    · exact ⟨_, .inl rfl, h⟩
  · rintro ⟨cs, spelt | spelt, h⟩
    · rw [spelt, if_neg h.head?_ne]
      exact h
    · rw [spelt]
      exact h

theorem number?_eq_some_iff {bound : Nat} {n : Yaml.Node} {v : Nat} :
    number? bound n = some v ↔ IsNumber bound n v := by
  unfold number?
  rw [Option.filter_eq_some_iff, Option.bind_eq_some_iff]
  constructor
  · rintro ⟨⟨s, bare, spelt⟩, below⟩
    obtain ⟨cs, signed, numeral⟩ := natural?_eq_some_iff.mp spelt
    exact ⟨s, cs, bare?_eq_some_iff.mp bare, signed, numeral, of_decide_eq_true below⟩
  · rintro ⟨s, cs, bare, signed, numeral, below⟩
    exact ⟨⟨s, bare?_eq_some_iff.mpr bare, natural?_eq_some_iff.mpr ⟨cs, signed, numeral⟩⟩,
      decide_eq_true below⟩

/-! ## Sections -/

/-- The entries of a section: those of a map, or none where nothing is given. -/
inductive Lists : Yaml.Node → List Entry → Prop where
  | map (tag? : Option String) (es : List Entry) : Lists (.map tag? es) es
  | nothing (tag? : Option String) : Lists (.scalar tag? .plain "") []

/-- Two entries are under different keys. -/
def Apart (e e' : Entry) : Prop := ∀ key, IsText e.1 key → ¬ IsText e'.1 key

/-- The keys of a section are known, and none of them stands there twice. -/
structure Keyed (known : List String) (es : List Entry) : Prop where
  known : ∀ e ∈ es, ∃ key ∈ known, IsText e.1 key
  apart : es.Pairwise Apart

/-- What a section says under a key: what the value there stands for, or the default of a key that
is left out. -/
inductive Says {β : Type} (es : List Entry) (key : String) (Is : Yaml.Node → β → Prop)
    (default? : Option β) : β → Prop where
  | given {e : Entry} {b : β} (here : e ∈ es) (named : IsText e.1 key) (stands : Is e.2 b) :
      Says es key Is default? b
  | absent {b : β} (nowhere : ∀ e ∈ es, ¬ IsText e.1 key) (stands : default? = some b) :
      Says es key Is default? b

theorem entries?_eq_some_iff {n : Yaml.Node} {es : List Entry} :
    entries? n = some es ↔ Lists n es := by
  constructor
  · intro h
    unfold entries? at h
    split at h
    · cases h
      exact .map _ es
    · cases h
      exact .nothing _
    · cases h
  · rintro (_ | _)
    · rfl
    · rfl

instance : Std.Symm Apart where
  symm _ _ h key named' named := h key named named'

theorem IsText.unique {n : Yaml.Node} {s t : String} (h : IsText n s) (h' : IsText n t) : s = t :=
  Option.some.inj ((text?_eq_some_iff.mpr h).symm.trans (text?_eq_some_iff.mpr h'))

section Says

variable {β : Type} {known : List String} {es es' : List Entry} {key : String}
  {Is : Yaml.Node → β → Prop} {default? : Option β} {b b' : β}

theorem Says.stands (h : Says es key Is default? b) (apart : es.Pairwise Apart)
    {e : Entry} (here : e ∈ es) (named : IsText e.1 key) : Is e.2 b := by
  cases h with
  | absent nowhere _ => exact absurd named (nowhere e here)
  | given here' named' stands =>
    by_contra other
    refine apart.forall here here' ?_ key named named'
    rintro rfl
    exact other stands

theorem Says.unique {read : Yaml.Node → Option β} (reads : ∀ {n b}, read n = some b ↔ Is n b)
    (h : Says es key Is default? b) (h' : Says es key Is default? b')
    (apart : es.Pairwise Apart) : b = b' := by
  cases h with
  | given here named stands =>
    have stands' := h'.stands apart here named
    exact Option.some.inj ((reads.mpr stands).symm.trans (reads.mpr stands'))
  | absent nowhere stands =>
    cases h' with
    | given here named _ => exact absurd named (nowhere _ here)
    | absent _ stands' => exact Option.some.inj (stands.symm.trans stands')

theorem Says.perm (h : Says es key Is default? b) (perm : es.Perm es') :
    Says es' key Is default? b := by
  cases h with
  | given here named stands => exact .given (perm.mem_iff.mp here) named stands
  | absent nowhere stands =>
    exact .absent (fun e here => nowhere e (perm.mem_iff.mpr here)) stands

theorem Keyed.perm (h : Keyed known es) (perm : es.Perm es') : Keyed known es' where
  known e here := h.known e (perm.mem_iff.mpr here)
  apart := (perm.pairwise_iff (Std.Symm.symm _ _)).mp h.apart

variable {front back : List Entry} {k v v' : Yaml.Node}

/-- A value may be put in place of another one that stands for the same. -/
theorem Says.replace (h : Says (front ++ (k, v) :: back) key Is default? b)
    (alike : Is v b → Is v' b) : Says (front ++ (k, v') :: back) key Is default? b := by
  cases h with
  | given here named stands =>
    rcases List.mem_append.mp here with here | here
    · exact .given (List.mem_append_left _ here) named stands
    · rcases List.mem_cons.mp here with rfl | here
      · exact .given (List.mem_append_right _ List.mem_cons_self) named (alike stands)
      · exact .given (List.mem_append_right _ (List.mem_cons_of_mem _ here)) named stands
  | absent nowhere stands =>
    refine .absent (fun e here => ?_) stands
    rcases List.mem_append.mp here with here | here
    · exact nowhere e (List.mem_append_left _ here)
    · rcases List.mem_cons.mp here with rfl | here
      · exact nowhere (k, v) (List.mem_append_right _ List.mem_cons_self)
      · exact nowhere e (List.mem_append_right _ (List.mem_cons_of_mem _ here))

theorem Keyed.replace (h : Keyed known (front ++ (k, v) :: back)) :
    Keyed known (front ++ (k, v') :: back) where
  known e here := by
    rcases List.mem_append.mp here with here | here
    · exact h.known e (List.mem_append_left _ here)
    · rcases List.mem_cons.mp here with rfl | here
      · exact h.known (k, v) (List.mem_append_right _ List.mem_cons_self)
      · exact h.known e (List.mem_append_right _ (List.mem_cons_of_mem _ here))
  apart := by
    obtain ⟨first, rest, across⟩ := List.pairwise_append.mp h.apart
    obtain ⟨behind, last⟩ := List.pairwise_cons.mp rest
    refine List.pairwise_append.mpr ⟨first, List.pairwise_cons.mpr ⟨behind, last⟩, ?_⟩
    intro e here e' here'
    rcases List.mem_cons.mp here' with rfl | here'
    · exact across e here (k, v) List.mem_cons_self
    · exact across e here e' (List.mem_cons_of_mem _ here')

end Says

/-! ## Reading a section -/

section Fill

variable {σ β : Type} {put : σ → String → Yaml.Node → Option σ} {s t : σ} {seen : List String}
  {es : List Entry}

theorem fill_cons_iff {k v : Yaml.Node} : fill put s seen ((k, v) :: es) = some t ↔
    ∃ key s', IsText k key ∧ key ∉ seen ∧ put s key v = some s' ∧
      fill put s' (key :: seen) es = some t := by
  rw [fill, Option.bind_eq_bind, Option.bind_eq_some_iff]
  constructor
  · rintro ⟨key, text, h⟩
    split at h
    · cases h
    · rename_i fresh
      obtain ⟨s', made, more⟩ := Option.bind_eq_some_iff.mp h
      exact ⟨key, s', text?_eq_some_iff.mp text, fun mem => fresh (List.contains_iff_mem.mpr mem),
        made, more⟩
  · rintro ⟨key, s', text, fresh, made, more⟩
    refine ⟨key, text?_eq_some_iff.mpr text, ?_⟩
    rw [if_neg fun mem => fresh (List.contains_iff_mem.mp mem)]
    exact Option.bind_eq_some_iff.mpr ⟨s', made, more⟩

theorem apart_of_fill (h : fill put s seen es = some t) :
    (∀ e ∈ es, ∀ key ∈ seen, ¬ IsText e.1 key) ∧ es.Pairwise Apart := by
  induction es generalizing s seen with
  | nil => exact ⟨nofun, .nil⟩
  | cons e es ih =>
    obtain ⟨k, v⟩ := e
    obtain ⟨key, s', text, fresh, -, more⟩ := fill_cons_iff.mp h
    obtain ⟨newer, apart⟩ := ih more
    refine ⟨fun e here old mem named => ?_,
      List.pairwise_cons.mpr ⟨fun e here old named => ?_, apart⟩⟩
    · rcases List.mem_cons.mp here with rfl | here
      · cases text.unique named
        exact fresh mem
      · exact newer e here old (List.mem_cons_of_mem _ mem) named
    · cases text.unique named
      exact newer e here key List.mem_cons_self

theorem known_of_fill {known : List String}
    (knows : ∀ {s key v t}, put s key v = some t → key ∈ known) (h : fill put s seen es = some t) :
    ∀ e ∈ es, ∃ key ∈ known, IsText e.1 key := by
  induction es generalizing s seen with
  | nil => exact nofun
  | cons e es ih =>
    obtain ⟨k, v⟩ := e
    obtain ⟨key, s', text, -, made, more⟩ := fill_cons_iff.mp h
    intro e here
    rcases List.mem_cons.mp here with rfl | here
    · exact ⟨key, knows made, text⟩
    · exact ih more e here

theorem exists_fill (apart : es.Pairwise Apart)
    (fresh : ∀ e ∈ es, ∀ key ∈ seen, ¬ IsText e.1 key)
    (takes : ∀ e ∈ es, ∃ key, IsText e.1 key ∧ ∀ s, ∃ t, put s key e.2 = some t) (s : σ) :
    ∃ t, fill put s seen es = some t := by
  induction es generalizing s seen with
  | nil => exact ⟨s, rfl⟩
  | cons e es ih =>
    obtain ⟨k, v⟩ := e
    obtain ⟨behind, apart⟩ := List.pairwise_cons.mp apart
    obtain ⟨key, text, put_here⟩ := takes (k, v) List.mem_cons_self
    obtain ⟨s', made⟩ := put_here s
    have newer : ∀ e ∈ es, ∀ old ∈ key :: seen, ¬ IsText e.1 old := by
      intro e here old mem
      rcases List.mem_cons.mp mem with rfl | mem
      · exact behind e here old text
      · exact fresh e (List.mem_cons_of_mem _ here) old mem
    obtain ⟨t, more⟩ := ih apart newer (fun e here => takes e (List.mem_cons_of_mem _ here)) s'
    refine ⟨t, fill_cons_iff.mpr ⟨key, s', text, fun mem => ?_, made, more⟩⟩
    exact fresh (k, v) List.mem_cons_self key mem text

/-- A key of a section: which part of it a value under this key sets, to what the value stands
for. -/
structure Slot (put : σ → String → Yaml.Node → Option σ) (key : String) (Is : Yaml.Node → β → Prop)
    (part : σ → β) : Prop where
  sets : ∀ {s t v}, put s key v = some t → Is v (part t)
  takes : ∀ {v b} (s), Is v b → ∃ t, put s key v = some t
  keeps : ∀ {s t other v}, other ≠ key → put s other v = some t → part t = part s

variable {key : String} {Is : Yaml.Node → β → Prop} {part : σ → β}

/-- A part becomes what the section says under its key, and stays as it was if it says nothing. -/
theorem Slot.told (slot : Slot put key Is part) (h : fill put s seen es = some t) :
    Says es key Is (some (part s)) (part t) := by
  induction es generalizing s seen with
  | nil =>
    cases h
    exact .absent nofun rfl
  | cons e es ih =>
    obtain ⟨k, v⟩ := e
    obtain ⟨other, s', text, -, made, more⟩ := fill_cons_iff.mp h
    have later := ih more
    by_cases same : other = key
    · subst same
      have behind := (apart_of_fill more).1
      cases later with
      | given here named _ => exact absurd named (behind _ here _ List.mem_cons_self)
      | absent _ kept =>
        refine .given List.mem_cons_self text ?_
        rw [← Option.some.inj kept]
        exact slot.sets made
    · cases later with
      | given here named stands => exact .given (List.mem_cons_of_mem _ here) named stands
      | absent nowhere kept =>
        rw [slot.keeps same made] at kept
        refine .absent (fun e here named => ?_) kept
        rcases List.mem_cons.mp here with rfl | here
        · exact same (text.unique named)
        · exact nowhere e here named

theorem Slot.of_read {read : Yaml.Node → Option β} {set : σ → β → σ}
    (reads : ∀ {n b}, read n = some b ↔ Is n b)
    (puts : ∀ s v, put s key v = (read v).map (set s)) (gets : ∀ s b, part (set s b) = b)
    (keeps : ∀ {s t other v}, other ≠ key → put s other v = some t → part t = part s) :
    Slot put key Is part where
  sets {s t v} made := by
    rw [puts] at made
    obtain ⟨b, here, rfl⟩ := Option.map_eq_some_iff.mp made
    rw [gets]
    exact reads.mp here
  takes {v b} s stands := by
    rw [puts, reads.mpr stands]
    exact ⟨_, rfl⟩
  keeps := keeps

theorem section?_eq_some_iff {n : Yaml.Node} {start s : σ} : section? put start n = some s ↔
    ∃ es, Lists n es ∧ fill put start [] es = some s := by
  simp only [section?, Option.bind_eq_some_iff, entries?_eq_some_iff]

end Fill

end WalletWatch.Settings
