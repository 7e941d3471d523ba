import WalletWatch.Http.Header
import WalletWatch.Proofs.Metadata

set_option autoImplicit false

/-!
# Metadata in headers

What a header of a name holds after metadata was written, and what metadata headers give. Metadata
of the known keys with readable values is read back as it was written, and blanks inside a value
survive a connection.
-/

namespace WalletWatch

theorem Text.chars?_map (cs : List Char) : Text.chars? (cs.map Sign.char) = some cs := by
  induction cs with
  | nil => rfl
  | cons c cs ih =>
    change (Text.chars? (cs.map Sign.char)).map (c :: ·) = _
    rw [ih]
    rfl

@[simp] theorem Text.toString?_ofString (s : String) : (Text.ofString s).toString? = some s := by
  simp [Text.toString?, Text.ofString, Text.chars?_map]

namespace Http

/-- Whether a string can be written into a header and be read there. -/
def Readable (s : String) : Prop := ∀ c ∈ s.toList, isReadable (.char c) = true

theorem Readable.all {s : String} (h : Readable s) : (Text.ofString s).all isReadable = true := by
  rw [List.all_eq_true]
  intro x hx
  obtain ⟨c, hc, rfl⟩ := List.mem_map.mp hx
  exact h c hc

theorem Readable.isValue {s : String} (h : Readable s) : isValue s = true := by
  rw [Http.isValue, List.all_eq_true]
  intro c hc
  have readable := h c hc
  simp only [isReadable, Bool.or_eq_true, Bool.and_eq_true, decide_eq_true_eq] at readable
  simp only [isValueChar, Bool.or_eq_true, Bool.and_eq_true, decide_eq_true_eq]
  rcases readable with tab | ⟨low, high⟩
  · exact .inl tab
  · exact .inr ⟨low, by omega⟩

namespace Headers

theorem get?_append (h h' : Headers) (name : String) :
    get? (h ++ h') name = (h.get? name).or (h'.get? name) := by
  simp only [get?, List.find?_append, Option.map_or]

theorem get?_put (h : Headers) (name sought : String) (value : Text) :
    (h.put name value).get? sought = if name = sought then some value else h.get? sought := by
  unfold put
  rw [get?_append]
  by_cases same : name = sought
  · subst same
    have gone : get? (h.filter fun e => e.name ≠ name) name = none := by
      simp [get?, List.find?_eq_none]
    rw [gone, if_pos rfl]
    simp [get?]
  · have kept : get? (h.filter fun e => e.name ≠ name) sought = h.get? sought := by
      have alike : (fun e : Header => decide (decide (e.name ≠ name) = true ∧
          decide (e.name = sought) = true)) = fun e => decide (e.name = sought) := by
        funext e
        by_cases he : e.name = sought
        · have differs : sought ≠ name := fun eq => same eq.symm
          simp [he, differs]
        · simp [he]
      rw [get?, get?, List.find?_filter, alike]
    have absent : get? [⟨name, value⟩] sought = none := by simp [get?, same]
    rw [kept, absent, if_neg same, Option.or_none]

theorem text?_of_get? {h : Headers} {name s : String} (found : h.get? name = some (Text.ofString s))
    (readable : Readable s) : h.text? name = some s := by
  simp only [text?, found, readable.all, Text.toString?_ofString, if_true]

theorem text?_of_get?_eq_none {h : Headers} {name : String} (absent : h.get? name = none) :
    h.text? name = none := by
  simp only [text?, absent]

theorem get?_foldl_put {l : List (String × String)} (distinct : l.Pairwise (fun a b => a.1 ≠ b.1))
    (h : Headers) (name : String) :
    (l.foldl (fun h e => h.put e.1 (Text.ofString e.2)) h).get? name =
      ((l.find? (fun e => e.1 = name)).map fun e => Text.ofString e.2).or (h.get? name) := by
  induction l generalizing h with
  | nil => rfl
  | cons e l ih =>
    obtain ⟨first, distinct⟩ := List.pairwise_cons.mp distinct
    rw [List.foldl_cons, ih distinct, get?_put]
    by_cases same : e.1 = name
    · -- The last entry of a name would win, so that it is the only one matters here.
      have later : l.find? (fun e => e.1 = name) = none := by
        refine List.find?_eq_none.mpr fun x hx => ?_
        have differs := first x hx
        simpa [same, eq_comm] using differs
      simp [later, same]
    · simp [same]

theorem get?_foldl_add (l : List (String × String)) (h : Headers) (name : String) :
    (l.foldl (fun h e => h.add e.1 (Text.ofString e.2)) h).get? name =
      (h.get? name).or ((l.find? (fun e => e.1 = name)).map fun e => Text.ofString e.2) := by
  induction l generalizing h with
  | nil => simp
  | cons e l ih =>
    rw [List.foldl_cons, ih, add, get?_append, Option.or_assoc]
    by_cases same : e.1 = name <;> simp [get?, same]

/-! ### Values that cross a connection -/

/-- A value as it comes out of a connection. -/
def trimmed (t : Text) : Text := ((t.dropWhile isBlank).reverse.dropWhile isBlank).reverse

theorem get?_delivered (h : Headers) (name : String) :
    h.delivered.get? name = (h.get? name).map trimmed := by
  unfold delivered get?
  induction h with
  | nil => rfl
  | cons e h ih =>
    by_cases same : e.name = name
    · simp [same, trimmed]
    · simpa [same] using ih

/-- No blank and no tab stands at either end. -/
def Unpadded (s : String) : Prop :=
  (∀ c ∈ s.toList.head?, isBlank (.char c) = false) ∧
    ∀ c ∈ s.toList.getLast?, isBlank (.char c) = false

theorem dropWhile_of_head? {l : List Sign} (h : ∀ x ∈ l.head?, isBlank x = false) :
    l.dropWhile isBlank = l := by
  cases l with
  | nil => rfl
  | cons x l => exact List.dropWhile_cons_of_neg (by simp [h x rfl])

theorem Unpadded.trimmed {s : String} (h : Unpadded s) :
    Headers.trimmed (Text.ofString s) = Text.ofString s := by
  have front : ∀ x ∈ (Text.ofString s).head?, isBlank x = false := by
    intro x hx
    rw [Text.ofString, List.head?_map] at hx
    obtain ⟨c, hc, rfl⟩ := Option.map_eq_some_iff.mp hx
    exact h.1 c hc
  have back : ∀ x ∈ (Text.ofString s).reverse.head?, isBlank x = false := by
    intro x hx
    rw [List.head?_reverse, Text.ofString, List.getLast?_map] at hx
    obtain ⟨c, hc, rfl⟩ := Option.map_eq_some_iff.mp hx
    exact h.2 c hc
  unfold Headers.trimmed
  rw [dropWhile_of_head? front, dropWhile_of_head? back, List.reverse_reverse]

end Headers

theorem keys_distinct (m : Metadata) : m.entries.Pairwise (fun a b => a.1 ≠ b.1) := by
  refine m.ordered.imp ?_
  rintro a b lt same
  exact String.lt_irrefl _ (same ▸ lt)

/-- Where keys are distinct, the first entry of a key is its only one. -/
theorem find?_filter_of_distinct (p : String × String → Bool) {l : List (String × String)}
    (distinct : l.Pairwise (fun a b => a.1 ≠ b.1)) (key : String) :
    (l.filter p).find? (fun e => e.1 = key) = (l.find? (fun e => e.1 = key)).filter p := by
  induction l with
  | nil => rfl
  | cons e l ih =>
    obtain ⟨first, distinct⟩ := List.pairwise_cons.mp distinct
    have behind := ih distinct
    by_cases same : e.1 = key
    · have later : l.find? (fun e => e.1 = key) = none := by
        refine List.find?_eq_none.mpr fun x hx => ?_
        have differs := first x hx
        simpa [same, eq_comm] using differs
      rw [later] at behind
      by_cases keep : p e <;> simp [same, keep, behind, Option.filter]
    · by_cases keep : p e <;> simp [same, keep, behind]

/-- Metadata replaces what a header held, as far as it can be written. -/
theorem get?_writeMetadata (h : Headers) (m : Metadata) (name : String) :
    (writeMetadata h m).get? name =
      (((m.valueOf name).filter fun v => writable (name, v)).map Text.ofString).or
        (h.get? name) := by
  have distinct := (keys_distinct m).sublist (List.filter_sublist (p := writable))
  unfold writeMetadata Metadata.toList
  rw [Headers.get?_foldl_put distinct, find?_filter_of_distinct writable (keys_distinct m)]
  congr 1
  unfold Metadata.valueOf
  cases found : m.entries.find? (fun e => e.1 = name) with
  | none => rfl
  | some e =>
    have key : e.1 = name := by simpa using List.find?_some found
    obtain ⟨k, v⟩ := e
    subst key
    by_cases keep : writable (k, v) <;> simp [Option.filter, keep]

/-! ## Metadata of headers -/

theorem valueOf_foldl_insert {keys : List String} (kept : ∀ k ∈ keys, Metadata.normalise k = k)
    (h : Headers) (m : Metadata) (key : String) :
    (keys.foldl (fun m k => match h.text? k with
      | some v => m.insert k v
      | none => m) m).valueOf key =
        if key ∈ keys then (m.valueOf key).or (h.text? key) else m.valueOf key := by
  induction keys generalizing m with
  | nil => simp
  | cons k keys ih =>
    have self := kept k List.mem_cons_self
    rw [List.foldl_cons, ih fun x hx => kept x (List.mem_cons_of_mem k hx)]
    have step : (match h.text? k with
        | some v => m.insert k v
        | none => m).valueOf key =
          if k = key then (m.valueOf key).or (h.text? key) else m.valueOf key := by
      cases found : h.text? k with
      | none =>
        by_cases same : k = key
        · subst same
          simp [found]
        · simp [same]
      | some v =>
        rw [Metadata.valueOf_insert, self]
        by_cases same : k = key
        · subst same
          cases m.valueOf k <;> simp [found]
        · simp [same]
    rw [step]
    by_cases same : k = key
    · subst same
      by_cases mem : k ∈ keys <;> simp [mem, Option.or_assoc]
    · have other : ¬ key = k := fun eq => same eq.symm
      simp [same, other]

theorem normalise_of_knownKeys : ∀ k ∈ knownKeys, Metadata.normalise k = k := by
  intro k hk
  simp only [knownKeys, List.mem_cons, List.not_mem_nil, or_false] at hk
  rcases hk with rfl | rfl | rfl | rfl
  · exact Metadata.normalise_authorizationKey
  · exact Metadata.normalise_membershipKey
  · exact Metadata.normalise_routeKey
  · exact Metadata.normalise_hostnameKey

theorem valueOf_metadataOf (h : Headers) (key : String) :
    (metadataOf h).valueOf key = if key ∈ knownKeys then h.text? key else none :=
  valueOf_foldl_insert normalise_of_knownKeys h ∅ key

end Http

/-- Metadata of the known keys with readable values. -/
def Metadata.Travels (m : Metadata) : Prop :=
  ∀ e ∈ m.entries, e.1 ∈ Http.knownKeys ∧ Http.Readable e.2

namespace Http

theorem isName_of_knownKeys : ∀ k ∈ knownKeys, isName k = true := by decide +kernel

theorem writable_of_travels {m : Metadata} (travels : m.Travels) {key value : String}
    (found : m.valueOf key = some value) : writable (key, value) = true := by
  obtain ⟨known, readable⟩ := travels _ ((m.valueOf_eq_some_iff key value).mp found)
  simp only [writable, isName_of_knownKeys key known, readable.isValue, Bool.and_self]

theorem metadataOf_eq {h : Headers} {m : Metadata} (travels : m.Travels)
    (held : ∀ key ∈ knownKeys, h.get? key = (m.valueOf key).map Text.ofString) :
    metadataOf h = m := by
  refine Metadata.ext_valueOf fun key => ?_
  rw [valueOf_metadataOf]
  by_cases known : key ∈ knownKeys
  · have here := held key known
    rw [if_pos known]
    cases found : m.valueOf key with
    | none =>
      rw [found] at here
      exact Headers.text?_of_get?_eq_none here
    | some value =>
      rw [found] at here
      exact Headers.text?_of_get? here (travels _ ((m.valueOf_eq_some_iff key value).mp found)).2
  · rw [if_neg known]
    cases found : m.valueOf key with
    | none => rfl
    | some value =>
      exact absurd (travels _ ((m.valueOf_eq_some_iff key value).mp found)).1 known

theorem metadataOf_writeMetadata {h : Headers} {m : Metadata} (travels : m.Travels)
    (fresh : ∀ key ∈ knownKeys, h.get? key = none) : metadataOf (writeMetadata h m) = m := by
  refine metadataOf_eq travels fun key known => ?_
  rw [get?_writeMetadata, fresh key known, Option.or_none]
  cases found : m.valueOf key with
  | none => rfl
  | some value => simp [Option.filter, writable_of_travels travels found]

end Http

end WalletWatch
