import WalletWatch.Message.Wire
import WalletWatch.Proofs.Json.Lexing

set_option autoImplicit false

/-!
# Reading printed values

Each reader takes the tokens of a printed value from the front of a list and leaves what follows.
Readers that are put together from others do so if those do.
-/

namespace WalletWatch.Json

open Value (moreItems moreMembers)

/-- From the tokens of `v`, whatever follows them, the reader makes `a`. -/
def Reads {α : Type} (read : Reader α) (v : Value) (a : α) : Prop :=
  ∀ rest, read (v.tokens ++ rest) = .ok (a, rest)

theorem Reads.decode {α : Type} {read : Reader α} {v : Value} {a : α} (h : Reads read v a) :
    Json.decode read (Text.ofString v.render) = .ok a := by
  have whole := h []
  rw [List.append_nil] at whole
  unfold Json.decode
  rw [v.tokens_render, whole]

theorem Reads.decodeFirst {α : Type} {read : Reader α} {v : Value} {a : α} (h : Reads read v a) :
    Json.decodeFirst read (Text.ofString v.render) = .ok a := by
  have whole := h []
  rw [List.append_nil] at whole
  unfold Json.decodeFirst
  rw [v.tokens_render, whole]
  rfl

/-! ## Values of one token -/

theorem reads_string (s : String) : Reads readString (.string s) s := by
  intro rest
  simp only [Value.tokens, List.cons_append, List.nil_append, readString, string?_spelling]

theorem reads_bool : ∀ b : Bool, Reads readBool (.bool b) b
  | true => fun _ => rfl
  | false => fun _ => rfl

theorem int64?_ofInt (z : Int64) : (Number.ofInt z.toInt).int64? = some z := by
  have low := Int64.le_toInt z
  have high := Int64.toInt_le z
  have range : Int64.minValue.toInt ≤ z.toInt ∧ z.toInt ≤ Int64.maxValue.toInt := ⟨low, high⟩
  simp only [Number.int64?, Number.int?_ofInt]
  rw [if_pos range, Int64.ofInt_toInt]

theorem reads_int64 (z : Int64) : Reads readInt64 (.int z.toInt) z := by
  intro rest
  simp only [Value.tokens, List.cons_append, List.nil_append, readInt64, int64?_ofInt]

theorem reads_name {α : Type} {ofName : String → Option α} {name : String} {a : α}
    (h : ofName name = some a) : Reads (readName ofName) (.string name) a := by
  intro rest
  change readName.named ofName (spelling name) rest = _
  unfold readName.named
  rw [string?_spelling]
  simp only [h]

/-! ## Lists -/

theorem readMore_moreItems {α : Type} {item : Reader α} {toValue : α → Value} {l : List α}
    (h : ∀ a ∈ l, Reads item (toValue a) a) (acc : List α) {n : Nat} (enough : l.length < n)
    (rest : List Token) :
    readMore item acc n (moreItems (l.map toValue) ++ rest) = .ok (acc.reverse ++ l, rest) := by
  induction l generalizing acc n with
  | nil =>
    obtain ⟨n, rfl⟩ : ∃ k, n = k + 1 := ⟨n - 1, by simp at enough; omega⟩
    rw [List.append_nil]
    rfl
  | cons a l ih =>
    obtain ⟨n, rfl⟩ : ∃ k, n = k + 1 := ⟨n - 1, by simp at enough; omega⟩
    have first := h a List.mem_cons_self (moreItems (l.map toValue) ++ rest)
    have more := ih (fun b hb => h b (List.mem_cons_of_mem a hb)) (a :: acc) (n := n)
      (by simp at enough; omega)
    simp only [List.map_cons, moreItems, List.cons_append, List.append_assoc, readMore, first, more,
      List.reverse_cons, List.nil_append]

theorem length_lt_moreItems (items : List Value) : items.length < (moreItems items).length := by
  induction items with
  | nil => exact Nat.zero_lt_one
  | cons v items ih =>
    simp only [moreItems, List.length_cons, List.length_append]
    omega

theorem tokens_ne_closeBracket (v : Value) (rest : List Token) :
    ∀ more, v.tokens ++ rest ≠ .closeBracket :: more := by
  intro more same
  cases v with
  | null => cases same
  | bool b => cases b <;> cases same
  | int z => cases same
  | string s => cases same
  | array items => cases items <;> cases same
  | object members =>
    cases members with
    | nil => cases same
    | cons m members => cases same

theorem reads_list {α : Type} {item : Reader α} {toValue : α → Value} {l : List α}
    (h : ∀ a ∈ l, Reads item (toValue a) a) : Reads (readList item) (.array (l.map toValue)) l := by
  intro rest
  cases l with
  | nil => rfl
  | cons a l =>
    have first := h a List.mem_cons_self (moreItems (l.map toValue) ++ rest)
    -- Each item has a token of its own, so the tokens that are left are rounds enough.
    have more := readMore_moreItems (fun b hb => h b (List.mem_cons_of_mem a hb)) [a]
      (n := (moreItems (l.map toValue) ++ rest).length + 1)
      (by
        have longer := length_lt_moreItems (l.map toValue)
        simp only [List.length_map, List.length_append] at longer ⊢
        omega) rest
    change readList item
      (.openBracket :: ((toValue a).tokens ++ moreItems (l.map toValue) ++ rest)) = _
    rw [List.append_assoc]
    unfold readList
    split
    · rename_i same
      exact absurd (List.cons.inj same).2 (tokens_ne_closeBracket _ _ _)
    · rename_i tail _ same
      cases (List.cons.inj same).2
      rw [first]
      exact more
    · rename_i other
      exact absurd rfl (other _)

/-! ## Records -/

namespace Record

variable {σ α : Type} (r : Record σ α)

/-- From one state to another, a record takes a member. -/
def Takes (key : String) (v : Value) (s s' : σ) : Prop :=
  ∀ rest, r.readMember key s (.colon :: (v.tokens ++ rest)) = .ok (s', rest)

/-- From one state to another, a record takes some members in turn. -/
inductive TakesAll : List (String × Value) → σ → σ → Prop where
  | nil (s : σ) : TakesAll [] s s
  | cons {key : String} {v : Value} {members : List (String × Value)} {s s' s'' : σ}
      (first : r.Takes key v s s') (more : TakesAll members s' s'') :
      TakesAll ((key, v) :: members) s s''

variable {r} {key : String} {v : Value} {members : List (String × Value)} {s s' s'' : σ}

theorem length_lt_moreMembers (members : List (String × Value)) :
    members.length < (moreMembers members).length := by
  induction members with
  | nil => exact Nat.zero_lt_one
  | cons m members ih =>
    simp only [moreMembers, List.length_cons, List.length_append]
    omega

theorem readMembers_moreMembers (first : r.Takes key v s s') (more : r.TakesAll members s' s'')
    {n : Nat} (enough : members.length < n) (rest : List Token) :
    r.readMembers n s
      (.text (spelling key) :: .colon :: (v.tokens ++ (moreMembers members ++ rest))) =
        .ok (s'', rest) := by
  -- The first member stays outside: the induction is on those behind it, each with its comma.
  induction more generalizing key v s n with
  | nil s' =>
    obtain ⟨n, rfl⟩ : ∃ k, n = k + 1 := ⟨n - 1, by simp at enough; omega⟩
    have taken := first (moreMembers [] ++ rest)
    simp only [readMembers, string?_spelling, taken]
    rfl
  | @cons l w members s' s₁ s₂ next _ ih =>
    obtain ⟨n, rfl⟩ : ∃ k, n = k + 1 := ⟨n - 1, by simp at enough; omega⟩
    have taken := first (moreMembers ((l, w) :: members) ++ rest)
    have behind := ih next (n := n) (by simp at enough; omega)
    simp only [readMembers, string?_spelling, taken]
    rw [← List.append_assoc w.tokens] at behind
    exact behind

theorem reads_object {a : α} (h : r.TakesAll members r.start s) (done : r.done s = some a) :
    Reads r.read (.object members) a := by
  have finished : ∀ rest, r.complete (.ok (s, rest)) = .ok (a, rest) := by
    intro rest
    simp only [complete, done]
  intro rest
  cases h with
  | nil => exact finished rest
  | @cons key v members _ _ _ first more =>
    have bound : members.length <
        (Token.text (spelling key) :: .colon ::
          (v.tokens ++ (moreMembers members ++ rest))).length := by
      have longer := length_lt_moreMembers members
      simp only [List.length_cons, List.length_append]
      omega
    have whole := readMembers_moreMembers first more bound rest
    rw [← List.append_assoc v.tokens] at whole
    change r.complete (r.readMembers (Token.text (spelling key) :: .colon ::
      (v.tokens ++ moreMembers members ++ rest)).length r.start (Token.text (spelling key) ::
        .colon :: (v.tokens ++ moreMembers members ++ rest))) = _
    rw [whole]
    exact finished rest

theorem takes_field {f : Field σ} (found : r.field? key = some f) (fresh : f.given s = false)
    (h : ∀ rest, f.read s (v.tokens ++ rest) = .ok (s', rest)) : r.Takes key v s s' := by
  intro rest
  simp only [readMember, found, fresh]
  exact h rest

end Record

section Fields

variable {α β γ : Type} {name name' : String} {read : Reader β} {read' : Reader γ}
  {default? : Option β} {default?' : Option γ} {v v' : Value} {b : β} {c : γ}

theorem reads_record1 (closed : Bool) (make : β → α) (h : Reads read v b) :
    Reads (record1 name read default? closed make).read (.object [(name, v)]) (make b) := by
  have found : (record1 name read default? closed make).field? name =
      (record1 name read default? closed make).fields.head? := by
    simp [Record.field?, record1]
  have taken : (record1 name read default? closed make).Takes name v none (some b) := by
    refine Record.takes_field found rfl fun rest => ?_
    simp only [h rest]
    rfl
  exact Record.reads_object (.cons taken (.nil _)) rfl

/-- Both fields of a record of two are given, or the second has a default. -/
theorem takes_first (make : β → γ → α) (h : Reads read v b) :
    (record2 name read default? name' read' default?' make).Takes name v (none, none)
      (some b, none) := by
  have found : (record2 name read default? name' read' default?' make).field? name =
      (record2 name read default? name' read' default?' make).fields.head? := by
    simp [Record.field?, record2]
  refine Record.takes_field found rfl fun rest => ?_
  simp only [h rest]
  rfl

theorem takes_second (make : β → γ → α) (differ : name ≠ name') (h : Reads read' v' c) :
    (record2 name read default? name' read' default?' make).Takes name' v' (some b, none)
      (some b, some c) := by
  have found : (record2 name read default? name' read' default?' make).field? name' =
      (record2 name read default? name' read' default?' make).fields[1]? := by
    simp [Record.field?, record2, differ]
  refine Record.takes_field found rfl fun rest => ?_
  simp only [h rest]
  rfl

theorem reads_record2 (make : β → γ → α) (differ : name ≠ name') (h : Reads read v b)
    (h' : Reads read' v' c) :
    Reads (record2 name read default? name' read' default?' make).read
      (.object [(name, v), (name', v')]) (make b c) :=
  Record.reads_object
    (.cons (takes_first make h) (.cons (takes_second make differ h') (.nil _))) rfl

theorem reads_record2_first (make : β → γ → α) (h : Reads read v b) (default : default?' = some c) :
    Reads (record2 name read default? name' read' default?' make).read (.object [(name, v)])
      (make b c) := by
  refine Record.reads_object (.cons (takes_first make h) (.nil _)) ?_
  simp only [record2, default]
  rfl

end Fields

end WalletWatch.Json
