import WalletWatch.Json.Reader

set_option autoImplicit false

/-!
# Documents

What a text that is JSON in form holds, as far as its tokens tell: any value, with the literals as
they are spelled. The tokens of a document are what is passed over where nobody asks for the value,
and a reader takes them from the front of a list.
-/

namespace WalletWatch.Json

inductive Document where
  | null
  | bool (b : Bool)
  | number (n : Number)
  | text (pieces : List Piece)
  | array (items : List Document)
  | object (members : List (List Piece × Document))

namespace Document

mutual

/-- The tokens of a document. -/
def tokens : Document → List Token
  | null => [.null]
  | bool true => [.true]
  | bool false => [.false]
  | number n => [.number n]
  | text ps => [.text ps]
  | array [] => [.openBracket, .closeBracket]
  | array (d :: items) => .openBracket :: (d.tokens ++ moreItems items)
  | object [] => [.openBrace, .closeBrace]
  | object ((k, d) :: members) =>
    .openBrace :: .text k :: .colon :: (d.tokens ++ moreMembers members)

/-- The tokens of the items of a list behind an item before them. -/
def moreItems : List Document → List Token
  | [] => [.closeBracket]
  | d :: items => .comma :: (d.tokens ++ moreItems items)

/-- The tokens of the members of an object behind a member before them. -/
def moreMembers : List (List Piece × Document) → List Token
  | [] => [.closeBrace]
  | (k, d) :: members => .comma :: .text k :: .colon :: (d.tokens ++ moreMembers members)

end

theorem length_lt_moreItems (items : List Document) :
    items.length < (moreItems items).length := by
  induction items with
  | nil => exact Nat.zero_lt_one
  | cons d items ih =>
    simp only [moreItems, List.length_cons, List.length_append]
    omega

theorem length_lt_moreMembers (members : List (List Piece × Document)) :
    members.length < (moreMembers members).length := by
  induction members with
  | nil => exact Nat.zero_lt_one
  | cons m members ih =>
    simp only [moreMembers, List.length_cons, List.length_append]
    omega

theorem tokens_ne_closeBracket (d : Document) (rest : List Token) :
    ∀ more, d.tokens ++ rest ≠ .closeBracket :: more := by
  intro more same
  cases d with
  | null => cases same
  | bool b => cases b <;> cases same
  | number n => cases same
  | text ps => cases same
  | array items => cases items <;> cases same
  | object members => cases members <;> cases same

end Document

open Document (moreItems moreMembers)

/-! ## Passing over a document -/

/-- What remains to be passed behind a value: nothing, or the rest of the innermost open bracket. -/
def behind : List Opened → List Token → Option (List Token)
  | [], rest => some rest
  | o :: outer, rest => skipFrom (o :: outer) .separator rest

section Pass

variable {pending pending' : List Opened} {awaited awaited' : Awaited} {t : Token}

theorem pass_of_asValue? (place : awaited = .value ∨ awaited = .valueOrEnd) {o? : Option Opened}
    (h : t.asValue? = some o?) : pass pending awaited t = some (pass.enter pending o?) := by
  rcases place with rfl | rfl
  · simp only [pass, h, Option.map_some]
  · unfold pass
    split <;> simp_all [Token.asValue?]

theorem skipFrom_of_pass (h : pass pending awaited t = some (pending', awaited'))
    (more : awaited' ≠ .separator) (rest : List Token) :
    skipFrom pending awaited (t :: rest) = skipFrom pending' awaited' rest := by
  rw [skipFrom, h]
  cases pending' with
  | cons o outer => rfl
  | nil =>
    cases awaited' with
    | separator => exact absurd rfl more
    | _ => rfl

theorem skipFrom_of_complete (h : pass pending awaited t = some (pending', .separator))
    (rest : List Token) : skipFrom pending awaited (t :: rest) = behind pending' rest := by
  rw [skipFrom, h]
  cases pending' <;> rfl

theorem skipFrom_of_leaf (place : awaited = .value ∨ awaited = .valueOrEnd)
    (h : t.asValue? = some none) (rest : List Token) :
    skipFrom pending awaited (t :: rest) = behind pending rest :=
  skipFrom_of_complete (pass_of_asValue? place h) rest

theorem skipFrom_of_opening (place : awaited = .value ∨ awaited = .valueOrEnd) {o : Opened}
    (h : t.asValue? = some (some o)) (rest : List Token) :
    skipFrom pending awaited (t :: rest) = skipFrom (o :: pending) o.first rest :=
  skipFrom_of_pass (pass_of_asValue? place h) (by cases o <;> exact Awaited.noConfusion) rest

theorem skipFrom_key (place : awaited = .key ∨ awaited = .keyOrEnd) (k : List Piece)
    (rest : List Token) : skipFrom (.record :: pending) awaited (.text k :: .colon :: rest) =
      skipFrom (.record :: pending) .value rest := by
  have named : pass (.record :: pending) awaited (.text k) = some (.record :: pending, .colon) := by
    rcases place with rfl | rfl <;> rfl
  exact (skipFrom_of_pass named (by decide) _).trans (skipFrom_of_pass rfl (by decide) _)

theorem skipFrom_comma_list (rest : List Token) :
    skipFrom (.list :: pending) .separator (.comma :: rest) =
      skipFrom (.list :: pending) .value rest :=
  skipFrom_of_pass rfl (by decide) rest

theorem skipFrom_comma_record (rest : List Token) :
    skipFrom (.record :: pending) .separator (.comma :: rest) =
      skipFrom (.record :: pending) .key rest :=
  skipFrom_of_pass rfl (by decide) rest

end Pass

mutual

theorem skipFrom_tokens (d : Document) (pending : List Opened) {awaited : Awaited}
    (place : awaited = .value ∨ awaited = .valueOrEnd) (rest : List Token) :
    skipFrom pending awaited (d.tokens ++ rest) = behind pending rest :=
  match d with
  | .null => skipFrom_of_leaf place rfl rest
  | .bool true => skipFrom_of_leaf place rfl rest
  | .bool false => skipFrom_of_leaf place rfl rest
  | .number _ => skipFrom_of_leaf place rfl rest
  | .text _ => skipFrom_of_leaf place rfl rest
  | .array [] => (skipFrom_of_opening place rfl _).trans (skipFrom_of_complete rfl rest)
  | .array (d :: items) => by
    refine (skipFrom_of_opening place rfl ((d.tokens ++ moreItems items) ++ rest)).trans ?_
    rw [List.append_assoc]
    refine (skipFrom_tokens d (.list :: pending) (.inr rfl) _).trans ?_
    exact skipFrom_moreItems items pending rest
  | .object [] => (skipFrom_of_opening place rfl _).trans (skipFrom_of_complete rfl rest)
  | .object ((k, d) :: members) => by
    refine (skipFrom_of_opening place rfl
      (.text k :: .colon :: (d.tokens ++ moreMembers members ++ rest))).trans ?_
    rw [List.append_assoc]
    refine (skipFrom_key (.inr rfl) k _).trans ?_
    rw [skipFrom_tokens d (.record :: pending) (.inl rfl)]
    exact skipFrom_moreMembers members pending rest

theorem skipFrom_moreItems (items : List Document) (pending : List Opened) (rest : List Token) :
    skipFrom (.list :: pending) .separator (moreItems items ++ rest) = behind pending rest :=
  match items with
  | [] => skipFrom_of_complete rfl rest
  | d :: items => by
    refine (skipFrom_comma_list (d.tokens ++ moreItems items ++ rest)).trans ?_
    rw [List.append_assoc, skipFrom_tokens d (.list :: pending) (.inl rfl)]
    exact skipFrom_moreItems items pending rest

theorem skipFrom_moreMembers (members : List (List Piece × Document)) (pending : List Opened)
    (rest : List Token) :
    skipFrom (.record :: pending) .separator (moreMembers members ++ rest) = behind pending rest :=
  match members with
  | [] => skipFrom_of_complete rfl rest
  | (k, d) :: members => by
    refine (skipFrom_comma_record
      (.text k :: .colon :: (d.tokens ++ moreMembers members ++ rest))).trans ?_
    rw [List.append_assoc]
    refine (skipFrom_key (.inl rfl) k _).trans ?_
    rw [skipFrom_tokens d (.record :: pending) (.inl rfl)]
    exact skipFrom_moreMembers members pending rest

end

theorem skip_tokens (d : Document) (rest : List Token) : skip (d.tokens ++ rest) = some rest :=
  skipFrom_tokens d [] (.inl rfl) rest

/-! Conversely, what is passed over is a document. -/

section Sound

variable {pending : List Opened} {ts rest : List Token}

theorem skipFrom_valueOrEnd (h : skipFrom (.list :: pending) .valueOrEnd ts = some rest) :
    (∃ ts', ts = .closeBracket :: ts' ∧ behind pending ts' = some rest) ∨
      skipFrom (.list :: pending) .value ts = some rest := by
  cases ts with
  | nil => cases h
  | cons t ts =>
    cases t with
    | closeBracket => exact .inl ⟨ts, rfl, (skipFrom_of_complete rfl ts).symm.trans h⟩
    | _ => exact .inr h

theorem skipFrom_keyOrEnd (h : skipFrom (.record :: pending) .keyOrEnd ts = some rest) :
    (∃ ts', ts = .closeBrace :: ts' ∧ behind pending ts' = some rest) ∨
      skipFrom (.record :: pending) .key ts = some rest := by
  cases ts with
  | nil => cases h
  | cons t ts =>
    cases t with
    | closeBrace => exact .inl ⟨ts, rfl, (skipFrom_of_complete rfl ts).symm.trans h⟩
    | text k => exact .inr h
    | _ => cases h

theorem key_of_skipFrom (h : skipFrom (.record :: pending) .key ts = some rest) :
    ∃ k ts', ts = .text k :: .colon :: ts' ∧
      skipFrom (.record :: pending) .value ts' = some rest := by
  cases ts with
  | nil => cases h
  | cons t ts =>
    cases t with
    | text k =>
      cases ts with
      | nil => cases h
      | cons t ts =>
        cases t with
        | colon => exact ⟨k, ts, rfl, h⟩
        | _ => cases h
    | _ => cases h

/-- What is passed is a document where a value is awaited, and the rest of a list or of an object
behind an item or a member. -/
structure Passed (pending : List Opened) (ts rest : List Token) : Prop where
  value : skipFrom pending .value ts = some rest →
    ∃ d ts', ts = Document.tokens d ++ ts' ∧ behind pending ts' = some rest
  items : skipFrom (.list :: pending) .separator ts = some rest →
    ∃ items ts', ts = moreItems items ++ ts' ∧ behind pending ts' = some rest
  members : skipFrom (.record :: pending) .separator ts = some rest →
    ∃ members ts', ts = moreMembers members ++ ts' ∧ behind pending ts' = some rest

theorem leaf_of_skipFrom {t : Token} (d : Document) (one : d.tokens = [t])
    (leaf : t.asValue? = some none) (h : skipFrom pending .value (t :: ts) = some rest) :
    ∃ d ts', t :: ts = Document.tokens d ++ ts' ∧ behind pending ts' = some rest :=
  ⟨d, ts, by rw [one]; rfl, (skipFrom_of_leaf (.inl rfl) leaf ts).symm.trans h⟩

theorem item_of_skipFrom (shorter : ∀ p us, us.length ≤ ts.length → Passed p us rest)
    (h : skipFrom (.list :: pending) .value ts = some rest) :
    ∃ d items ts', ts = Document.tokens d ++ (moreItems items ++ ts') ∧
      behind pending ts' = some rest := by
  obtain ⟨d, ts', rfl, more⟩ := (shorter (.list :: pending) ts (Nat.le_refl _)).value h
  have fewer : ts'.length ≤ (d.tokens ++ ts').length := by grind
  obtain ⟨items, ts'', rfl, done⟩ := (shorter pending ts' fewer).items more
  exact ⟨d, items, ts'', rfl, done⟩

theorem member_of_skipFrom (shorter : ∀ p us, us.length ≤ ts.length → Passed p us rest)
    (h : skipFrom (.record :: pending) .key ts = some rest) :
    ∃ k d members ts',
      ts = .text k :: .colon :: (Document.tokens d ++ (moreMembers members ++ ts')) ∧
        behind pending ts' = some rest := by
  obtain ⟨k, us, rfl, value⟩ := key_of_skipFrom h
  have fewer : us.length ≤ (.text k :: .colon :: us : List Token).length := by grind
  obtain ⟨d, ts', rfl, more⟩ := (shorter (.record :: pending) us fewer).value value
  have fewest : ts'.length ≤ (.text k :: .colon :: (d.tokens ++ ts') : List Token).length := by
    grind
  obtain ⟨members, ts'', rfl, done⟩ := (shorter pending ts' fewest).members more
  exact ⟨k, d, members, ts'', rfl, done⟩

/-- Each part of what is passed is shorter than the whole. -/
theorem passed (pending : List Opened) (ts rest : List Token) : Passed pending ts rest := by
  induction hn : ts.length using Nat.strongRecOn generalizing pending ts with
  | ind n ih =>
    subst hn
    cases ts with
    | nil => exact ⟨nofun, nofun, nofun⟩
    | cons t ts =>
      have shorter : ∀ p us, us.length ≤ ts.length → Passed p us rest :=
        fun p us le => ih us.length (Nat.lt_succ_of_le le) p us rfl
      refine ⟨fun value => ?_, fun listed => ?_, fun named => ?_⟩
      · cases t with
        | null => exact leaf_of_skipFrom .null rfl rfl value
        | true => exact leaf_of_skipFrom (.bool true) rfl rfl value
        | false => exact leaf_of_skipFrom (.bool false) rfl rfl value
        | number n => exact leaf_of_skipFrom (.number n) rfl rfl value
        | text ps => exact leaf_of_skipFrom (.text ps) rfl rfl value
        | openBracket =>
          rw [skipFrom_of_opening (.inl rfl) rfl] at value
          rcases skipFrom_valueOrEnd value with ⟨ts', rfl, done⟩ | first
          · exact ⟨.array [], ts', rfl, done⟩
          · obtain ⟨d, items, ts', rfl, done⟩ := item_of_skipFrom shorter first
            exact ⟨.array (d :: items), ts', by simp [Document.tokens], done⟩
        | openBrace =>
          rw [skipFrom_of_opening (.inl rfl) rfl] at value
          rcases skipFrom_keyOrEnd value with ⟨ts', rfl, done⟩ | first
          · exact ⟨.object [], ts', rfl, done⟩
          · obtain ⟨k, d, members, ts', rfl, done⟩ := member_of_skipFrom shorter first
            exact ⟨.object ((k, d) :: members), ts', by simp [Document.tokens], done⟩
        | _ => cases value
      · cases t with
        | closeBracket => exact ⟨[], ts, rfl, (skipFrom_of_complete rfl ts).symm.trans listed⟩
        | comma =>
          rw [skipFrom_comma_list] at listed
          obtain ⟨d, items, ts', rfl, done⟩ := item_of_skipFrom shorter listed
          exact ⟨d :: items, ts', by simp [moreItems], done⟩
        | _ => cases listed
      · cases t with
        | closeBrace => exact ⟨[], ts, rfl, (skipFrom_of_complete rfl ts).symm.trans named⟩
        | comma =>
          rw [skipFrom_comma_record] at named
          obtain ⟨k, d, members, ts', rfl, done⟩ := member_of_skipFrom shorter named
          exact ⟨(k, d) :: members, ts', by simp [moreMembers], done⟩
        | _ => cases named

end Sound

theorem skip_eq_some_iff (ts rest : List Token) :
    skip ts = some rest ↔ ∃ d, ts = Document.tokens d ++ rest := by
  constructor
  · intro h
    obtain ⟨d, ts', whole, done⟩ := (passed [] ts rest).value h
    cases done
    exact ⟨d, whole⟩
  · rintro ⟨d, rfl⟩
    exact skip_tokens d rest

/-! ## A document by its tokens -/

namespace Document

/-- The first token of a document. -/
def lead : Document → Token
  | null => .null
  | bool true => .true
  | bool false => .false
  | number n => .number n
  | text ps => .text ps
  | array _ => .openBracket
  | object _ => .openBrace

theorem head?_tokens (d : Document) (rest : List Token) :
    (d.tokens ++ rest).head? = some d.lead := by
  cases d with
  | bool b => cases b <;> rfl
  | array items => cases items <;> rfl
  | object members => cases members <;> rfl
  | _ => rfl

theorem lead_eq {d d' : Document} {rest rest' : List Token}
    (same : d.tokens ++ rest = d'.tokens ++ rest') : d.lead = d'.lead := by
  have heads := congrArg List.head? same
  rw [head?_tokens, head?_tokens] at heads
  exact Option.some.inj heads

theorem array_of_lead {d : Document} (h : .openBracket = d.lead) : ∃ items, d = array items := by
  cases d with
  | array items => exact ⟨items, rfl⟩
  | bool b => cases b <;> cases h
  | _ => cases h

theorem object_of_lead {d : Document} (h : .openBrace = d.lead) :
    ∃ members, d = object members := by
  cases d with
  | object members => exact ⟨members, rfl⟩
  | bool b => cases b <;> cases h
  | _ => cases h

mutual

theorem eq_of_tokens (d d' : Document) {rest rest' : List Token}
    (same : d.tokens ++ rest = d'.tokens ++ rest') : d = d' := by
  -- The first token settles the form, so only documents with parts have more to compare.
  have lead := lead_eq same
  match d with
  | null | number _ | text _ =>
    cases d' with
    | bool b => cases b <;> cases lead
    | _ => cases lead <;> rfl
  | bool b =>
    cases d' with
    | bool c => cases b <;> cases c <;> first | rfl | cases lead
    | _ => cases b <;> cases lead
  | array items =>
    obtain ⟨items', rfl⟩ := array_of_lead lead
    match items, items' with
    | [], [] => rfl
    | [], e' :: items' =>
      have inner : .closeBracket :: rest = e'.tokens ++ (moreItems items' ++ rest') := by
        simpa [tokens] using same
      exact absurd inner.symm (tokens_ne_closeBracket e' _ rest)
    | e :: items, [] =>
      have inner : e.tokens ++ (moreItems items ++ rest) = .closeBracket :: rest' := by
        simpa [tokens] using same
      exact absurd inner (tokens_ne_closeBracket e _ rest')
    | e :: items, e' :: items' =>
      have inner : e.tokens ++ (moreItems items ++ rest) =
          e'.tokens ++ (moreItems items' ++ rest') := by
        simpa [tokens] using same
      obtain rfl := eq_of_tokens e e' inner
      rw [items_of_tokens items items' (List.append_cancel_left inner)]
  | object members =>
    obtain ⟨members', rfl⟩ := object_of_lead lead
    match members, members' with
    | [], [] => rfl
    | [], (k', e') :: members' => simp [tokens] at same
    | (k, e) :: members, [] => simp [tokens] at same
    | (k, e) :: members, (k', e') :: members' =>
      have inner : k = k' ∧ e.tokens ++ (moreMembers members ++ rest) =
          e'.tokens ++ (moreMembers members' ++ rest') := by
        simpa [tokens] using same
      obtain ⟨rfl, inner⟩ := inner
      obtain rfl := eq_of_tokens e e' inner
      rw [members_of_tokens members members' (List.append_cancel_left inner)]

theorem items_of_tokens (items items' : List Document) {rest rest' : List Token}
    (same : moreItems items ++ rest = moreItems items' ++ rest') : items = items' := by
  match items, items' with
  | [], [] => rfl
  | [], _ :: _ => simp [moreItems] at same
  | _ :: _, [] => simp [moreItems] at same
  | e :: items, e' :: items' =>
    have inner : e.tokens ++ (moreItems items ++ rest) =
        e'.tokens ++ (moreItems items' ++ rest') := by
      simpa [moreItems] using same
    obtain rfl := eq_of_tokens e e' inner
    rw [items_of_tokens items items' (List.append_cancel_left inner)]

theorem members_of_tokens (members members' : List (List Piece × Document))
    {rest rest' : List Token} (same : moreMembers members ++ rest = moreMembers members' ++ rest') :
    members = members' := by
  match members, members' with
  | [], [] => rfl
  | [], _ :: _ => simp [moreMembers] at same
  | _ :: _, [] => simp [moreMembers] at same
  | (k, e) :: members, (k', e') :: members' =>
    have inner : k = k' ∧ e.tokens ++ (moreMembers members ++ rest) =
        e'.tokens ++ (moreMembers members' ++ rest') := by
      simpa [moreMembers] using same
    obtain ⟨rfl, inner⟩ := inner
    obtain rfl := eq_of_tokens e e' inner
    rw [members_of_tokens members members' (List.append_cancel_left inner)]

end

end Document

end WalletWatch.Json
