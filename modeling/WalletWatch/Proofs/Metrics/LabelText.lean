import WalletWatch.Proofs.Metrics.Labels

set_option autoImplicit false

/-!
# Labels read back from their text

A value is shown between quotes, with its own quotes, backslashes and newlines escaped, so whatever
a value looks like, the first quote that is not escaped ends it. With names that are words the text
of labels has one reading.
-/

namespace WalletWatch.Labels

/-! ## Values -/

/-- A text with something else in place of a character. -/
def replace (c : Char) (instead text : List Char) : List Char :=
  text.flatMap fun d => if d = c then instead else [d]

/-- Escaping each character on its own is escaping backslashes first, then quotes, then newlines. -/
theorem flatMap_escape_eq (text : List Char) :
    text.flatMap escape =
      replace '\n' ['\\', 'n'] (replace '"' ['\\', '"'] (replace '\\' ['\\', '\\'] text)) := by
  unfold replace
  rw [List.flatMap_assoc, List.flatMap_assoc]
  refine congrArg (text.flatMap ·) (funext fun c => ?_)
  unfold escape
  by_cases backslash : c = '\\'
  · subst backslash
    rfl
  by_cases quote : c = '"'
  · subst quote
    rfl
  by_cases newline : c = '\n'
  · subst newline
    rfl
  simp [backslash, quote, newline]

theorem toList_renderOne (label : String × String) : (renderOne label).toList =
    label.1.toList ++ '=' :: '"' :: (label.2.toList.flatMap escape ++ ['"']) := by
  simp [renderOne]

/-- The character that an escaped one stands for. -/
def unescape (c : Char) : Char := if c = 'n' then '\n' else c

/-- A value up to the quote that ends it, and what is behind the quote. -/
def readValue : List Char → Option (List Char × List Char)
  | [] => none
  | '"' :: rest => some ([], rest)
  | '\\' :: c :: rest => (readValue rest).map fun (value, behind) => (unescape c :: value, behind)
  | c :: rest => (readValue rest).map fun (value, behind) => (c :: value, behind)

theorem readValue_escape (c : Char) (text : List Char) : readValue (escape c ++ text) =
    (readValue text).map fun (value, behind) => (c :: value, behind) := by
  unfold escape
  by_cases backslash : c = '\\'
  · subst backslash
    rfl
  by_cases quote : c = '"'
  · subst quote
    rfl
  by_cases newline : c = '\n'
  · subst newline
    rfl
  simp [readValue, backslash, quote, newline]

/-- What is read is what was shown, whatever it looks like. -/
theorem readValue_flatMap_escape (value rest : List Char) :
    readValue (value.flatMap escape ++ '"' :: rest) = some (value, rest) := by
  induction value with
  | nil => rfl
  | cons c value ih =>
    rw [List.flatMap_cons, List.append_assoc, readValue_escape, ih]
    rfl

theorem readValue_length {text value behind : List Char}
    (read : readValue text = some (value, behind)) : behind.length < text.length := by
  fun_induction readValue text generalizing value with
  | case1 => cases read
  | case2 rest =>
    cases read
    exact Nat.lt_succ_self _
  | case3 c rest ih =>
    obtain ⟨⟨v, b⟩, inner, same⟩ := Option.map_eq_some_iff.mp read
    cases same
    have shorter := ih inner
    simp only [List.length_cons]
    omega
  | case4 c rest _ _ ih =>
    obtain ⟨⟨v, b⟩, inner, same⟩ := Option.map_eq_some_iff.mp read
    cases same
    have shorter := ih inner
    simp only [List.length_cons]
    omega

/-! ## Labels -/

/-- A name of a label is a word that does not begin with a digit. -/
def isName (name : String) : Bool :=
  match name.toList with
  | [] => false
  | first :: rest =>
    (first.isAlpha || first == '_') && rest.all fun c => c.isAlphanum || c == '_'

/-- The labels have names. -/
def Named (labels : Labels) : Prop := ∀ label ∈ labels, isName label.1 = true

theorem isWord_of_mem {name : String} (is : isName name = true) {c : Char} (mem : c ∈ name.toList) :
    (c.isAlphanum || c == '_') = true := by
  unfold isName at is
  split at is
  · cases is
  · rename_i first rest eq
    rw [eq] at mem
    obtain ⟨begins, goesOn⟩ := Bool.and_eq_true_iff.mp is
    rcases List.mem_cons.mp mem with rfl | mem
    · unfold Char.isAlphanum
      revert begins
      cases c.isAlpha
      · cases c.isDigit <;> simp
      · simp
    · exact List.all_eq_true.mp goesOn c mem

theorem Named.perm {labels other : Labels} (named : labels.Named) (perm : labels.Perm other) :
    other.Named :=
  fun label mem => named label (perm.mem_iff.mpr mem)

/-- A label and what is behind it. -/
def readLabel (text : List Char) : Option ((String × String) × List Char) :=
  match text.dropWhile (· ≠ '=') with
  | '=' :: '"' :: rest => (readValue rest).map fun (value, behind) =>
      ((String.ofList (text.takeWhile (· ≠ '=')), String.ofList value), behind)
  | _ => none

theorem readLabel_length {text behind : List Char} {label : String × String}
    (read : readLabel text = some (label, behind)) : behind.length < text.length := by
  unfold readLabel at read
  split at read
  · rename_i rest eq
    obtain ⟨⟨value, b⟩, inner, same⟩ := Option.map_eq_some_iff.mp read
    cases same
    have shorter := readValue_length inner
    have le := (List.dropWhile_sublist (l := text) (· ≠ '=')).length_le
    rw [eq] at le
    simp only [List.length_cons] at le
    omega
  · cases read

theorem readLabel_renderOne {label : String × String} (is : isName label.1 = true)
    (rest : List Char) : readLabel ((renderOne label).toList ++ rest) = some (label, rest) := by
  have shown : (renderOne label).toList ++ rest =
      label.1.toList ++ '=' :: '"' :: (label.2.toList.flatMap escape ++ '"' :: rest) := by
    simp [toList_renderOne]
  have inName : ∀ c ∈ label.1.toList, decide (c ≠ '=') = true := by
    intro c mem
    refine decide_eq_true ?_
    rintro rfl
    exact absurd (isWord_of_mem is mem) (by decide)
  have name : ((renderOne label).toList ++ rest).takeWhile (· ≠ '=') = label.1.toList := by
    rw [shown, List.takeWhile_append_of_pos inName]
    simp
  have behind : ((renderOne label).toList ++ rest).dropWhile (· ≠ '=') =
      '=' :: '"' :: (label.2.toList.flatMap escape ++ '"' :: rest) := by
    rw [shown, List.dropWhile_append_of_pos inName]
    simp
  rw [readLabel, behind, name]
  simp [readValue_flatMap_escape]

/-- Labels up to the brace that closes them, with a comma in front of each, and what is behind the
brace. -/
def readMore (text : List Char) : Option (Labels × List Char) :=
  match text with
  | '}' :: rest => some ([], rest)
  | ',' :: rest =>
    match _read : readLabel rest with
    | none => none
    | some (label, behind) => (readMore behind).map fun (labels, rest) => (label :: labels, rest)
  | _ => none
termination_by text.length
decreasing_by
  have shorter := readLabel_length _read
  simp only [List.length_cons]
  omega

/-- Labels up to the brace that closes them, and what is behind the brace. -/
def readUpTo : List Char → Option (Labels × List Char)
  | '}' :: rest => some ([], rest)
  | text => readMore (',' :: text)

theorem readMore_cons {label : String × String} (is : isName label.1 = true) (text : List Char) :
    readMore (',' :: ((renderOne label).toList ++ text)) =
      (readMore text).map fun (labels, rest) => (label :: labels, rest) := by
  rw [readMore, readLabel_renderOne is]

theorem readMore_flatMap {labels : Labels} (named : labels.Named) (rest : List Char) :
    readMore (labels.flatMap (fun label => ',' :: (renderOne label).toList) ++ '}' :: rest) =
      some (labels, rest) := by
  induction labels with
  | nil => rw [List.flatMap_nil, List.nil_append, readMore]
  | cons label labels ih =>
    obtain ⟨is, named⟩ := List.forall_mem_cons.mp named
    rw [List.flatMap_cons, List.cons_append, List.cons_append, List.append_assoc, readMore_cons is,
      ih named]
    rfl

theorem toList_render_cons (label : String × String) (labels : Labels) :
    (render (label :: labels)).toList =
      (renderOne label).toList ++ labels.flatMap fun label => ',' :: (renderOne label).toList := by
  induction labels generalizing label with
  | nil => simp [render]
  | cons next labels ih =>
    have rest := ih next
    unfold render at rest ⊢
    rw [List.map_cons, List.map_cons, String.intercalate_cons_cons, String.toList_append,
      String.toList_append, ← List.map_cons, rest, List.flatMap_cons]
    simp

/-- A label is not taken for the brace behind the last one. -/
theorem toList_renderOne_eq_cons {label : String × String} (is : isName label.1 = true) :
    ∃ first more, (renderOne label).toList = first :: more ∧ first ≠ '}' := by
  cases name : label.1.toList with
  | nil => simp [isName, name] at is
  | cons first rest =>
    refine ⟨first, rest ++ '=' :: '"' :: (label.2.toList.flatMap escape ++ ['"']), ?_, ?_⟩
    · rw [toList_renderOne, name, List.cons_append]
    · rintro rfl
      exact absurd (isWord_of_mem is (name ▸ List.mem_cons_self)) (by decide)

/-- The text of labels has one reading. -/
theorem readUpTo_render {labels : Labels} (named : labels.Named) (rest : List Char) :
    readUpTo (labels.render.toList ++ '}' :: rest) = some (labels, rest) := by
  cases labels with
  | nil => rfl
  | cons label labels =>
    have whole := readMore_flatMap named rest
    rw [List.flatMap_cons, List.cons_append, ← toList_render_cons] at whole
    obtain ⟨first, more, shown, other⟩ := toList_renderOne_eq_cons (named label List.mem_cons_self)
    rw [toList_render_cons, shown, List.cons_append, List.cons_append] at whole ⊢
    rw [readUpTo]
    · exact whole
    · intro text eq
      exact other (List.cons.inj eq).1

theorem render_inj {labels other : Labels} (named : labels.Named) (named' : other.Named)
    (same : labels.render = other.render) : labels = other := by
  have read := readUpTo_render named []
  rw [same, readUpTo_render named' []] at read
  exact (Prod.mk.inj (Option.some_inj.mp read)).1.symm

/-- The text of labels, in the order in which they are kept, tells which pairs they are and no
more. -/
theorem render_sorted_eq_iff {labels other : Labels} (named : labels.Named)
    (named' : other.Named) :
    labels.sorted.render = other.sorted.render ↔ labels.Perm other := by
  constructor
  · intro same
    exact sorted_eq_sorted_iff.mp (render_inj (named.perm (sorted_perm labels).symm)
      (named'.perm (sorted_perm other).symm) same)
  · intro perm
    rw [sorted_eq_sorted_iff.mpr perm]

/-! ## Lines -/

theorem newline_notMem_escape (c : Char) : '\n' ∉ escape c := by
  unfold escape
  split
  · decide
  split
  · decide
  split
  · decide
  · rename_i other
    simpa using Ne.symm other

theorem newline_notMem_renderOne {label : String × String} (is : isName label.1 = true) :
    '\n' ∉ (renderOne label).toList := by
  have name : '\n' ∉ label.1.toList := fun mem => absurd (isWord_of_mem is mem) (by decide)
  simp [toList_renderOne, name, newline_notMem_escape]

theorem newline_notMem_render {labels : Labels} (named : labels.Named) :
    '\n' ∉ labels.render.toList := by
  cases labels with
  | nil => exact List.not_mem_nil
  | cons label labels =>
    obtain ⟨is, named⟩ := List.forall_mem_cons.mp named
    rw [toList_render_cons, List.mem_append, List.mem_flatMap]
    rintro (first | ⟨next, mem, later⟩)
    · exact newline_notMem_renderOne is first
    · rcases List.mem_cons.mp later with comma | later
      · exact absurd comma (by decide)
      · exact newline_notMem_renderOne (named next mem) later

end WalletWatch.Labels
