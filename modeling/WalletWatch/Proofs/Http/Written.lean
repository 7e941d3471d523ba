import WalletWatch.Proofs.Http.Headers

set_option autoImplicit false

/-!
# Metadata written over headers

Metadata is written over headers that are there already, of any names and with several values for a
name. A value that is written replaces all values of its name, and every other name keeps its own.
What is read afterwards is what was written, where it is visible ASCII; other characters can be
written into a header, but headers that have them are not read.
-/

namespace WalletWatch.Http

/-! ## Headers of some names -/

namespace Headers

theorem filter_put_of_false {p : String → Bool} {name : String} (out : p name = false) (h : Headers)
    (value : Text) : (h.put name value).filter (p ·.name) = h.filter (p ·.name) := by
  have kept : (fun e : Header => p e.name && decide (e.name ≠ name)) = fun e => p e.name := by
    funext e
    by_cases same : e.name = name <;> simp [same, out]
  have new : [Header.mk name value].filter (p ·.name) = [] := by simp [out]
  rw [put, List.filter_append, List.filter_filter, kept, new, List.append_nil]

theorem filter_put_self (h : Headers) (name : String) (value : Text) :
    (h.put name value).filter (fun e => e.name = name) = [⟨name, value⟩] := by
  have gone : (h.filter fun e => e.name ≠ name).filter (fun e => e.name = name) = [] := by
    rw [List.filter_eq_nil_iff]
    intro e mem
    simpa using (List.mem_filter.mp mem).2
  rw [put, List.filter_append, gone]
  simp

theorem filter_foldl_put_of_false {p : String → Bool} {l : List (String × String)}
    (out : ∀ e ∈ l, p e.1 = false) (h : Headers) :
    (l.foldl (fun h e => h.put e.1 (Text.ofString e.2)) h).filter (p ·.name) =
      h.filter (p ·.name) := by
  induction l generalizing h with
  | nil => rfl
  | cons e l ih =>
    obtain ⟨first, out⟩ := List.forall_mem_cons.mp out
    rw [List.foldl_cons, ih out, filter_put_of_false first]

theorem text?_of_get?_of_not_readable {h : Headers} {name s : String}
    (found : h.get? name = some (Text.ofString s)) (odd : ¬ Readable s) : h.text? name = none := by
  have refused : ¬ (Text.ofString s).all isReadable = true := by
    intro all
    refine odd fun c mem => List.all_eq_true.mp all _ ?_
    exact List.mem_map_of_mem mem
  simp only [text?, found, refused]
  rfl

theorem text?_congr {h h' : Headers} {name : String} (same : h.get? name = h'.get? name) :
    h.text? name = h'.text? name := by
  rw [text?, text?, same]

end Headers

/-! ## Reading -/

theorem get?_metadataOf (h : Headers) (key : String) : (metadataOf h).get? key =
    if Metadata.normalise key ∈ knownKeys then h.text? (Metadata.normalise key) else none :=
  valueOf_metadataOf h (Metadata.normalise key)

theorem get?_metadataOf_of_known {key : String} (known : key ∈ knownKeys) (h : Headers) :
    (metadataOf h).get? key = h.text? key := by
  have kept := normalise_of_knownKeys key known
  rw [get?_metadataOf, kept, if_pos known]

/-- Of headers the first values of the known names are read, and nothing else. -/
theorem metadataOf_congr {h h' : Headers} (same : ∀ key ∈ knownKeys, h.text? key = h'.text? key) :
    metadataOf h = metadataOf h' := by
  refine Metadata.ext_valueOf fun key => ?_
  rw [valueOf_metadataOf, valueOf_metadataOf]
  by_cases known : key ∈ knownKeys
  · rw [if_pos known, if_pos known, same key known]
  · rw [if_neg known, if_neg known]

/-! ## Writing -/

/-- A value that metadata has for a key and that can be written. -/
def Written (m : Metadata) (key value : String) : Prop :=
  m.valueOf key = some value ∧ writable (key, value) = true

instance (m : Metadata) (key value : String) : Decidable (Written m key value) :=
  inferInstanceAs (Decidable (_ ∧ _))

instance (s : String) : Decidable (Readable s) :=
  decidable_of_iff (s.toList.all (isReadable <| .char ·) = true) List.all_eq_true

theorem written_of_mem {m : Metadata} {e : String × String} (mem : e ∈ m.toList.filter writable) :
    Written m e.1 e.2 := by
  obtain ⟨entry, written⟩ := List.mem_filter.mp mem
  exact ⟨(m.valueOf_eq_some_iff e.1 e.2).mpr entry, written⟩

theorem mem_of_written {m : Metadata} {key value : String} (written : Written m key value) :
    (key, value) ∈ m.toList.filter writable :=
  List.mem_filter.mpr ⟨(m.valueOf_eq_some_iff key value).mp written.1, written.2⟩

theorem get?_writeMetadata_of_written {m : Metadata} {key value : String}
    (written : Written m key value) (h : Headers) :
    (writeMetadata h m).get? key = some (Text.ofString value) := by
  rw [get?_writeMetadata, written.1]
  simp [Option.filter, written.2]

theorem get?_writeMetadata_of_not_written {m : Metadata} {key : String}
    (left : ∀ value, ¬ Written m key value) (h : Headers) :
    (writeMetadata h m).get? key = h.get? key := by
  rw [get?_writeMetadata]
  cases found : m.valueOf key with
  | none => rfl
  | some value =>
    have unwritable : ¬ writable (key, value) = true := fun written => left value ⟨found, written⟩
    simp [Option.filter, unwritable]

theorem filter_writeMetadata_of_written {m : Metadata} {key value : String}
    (written : Written m key value) (h : Headers) :
    (writeMetadata h m).filter (fun e => e.name = key) = [⟨key, Text.ofString value⟩] := by
  obtain ⟨front, back, split⟩ := List.append_of_mem (mem_of_written written)
  have distinct := (keys_distinct m).sublist (List.filter_sublist (p := writable))
  change (m.toList.filter writable).Pairwise _ at distinct
  rw [split, List.pairwise_append] at distinct
  have later : ∀ e ∈ back, decide (e.1 = key) = false := by
    intro e mem
    have differs := (List.pairwise_cons.mp distinct.2.1).1 e mem
    simpa [eq_comm] using differs
  have settled := Headers.filter_foldl_put_of_false (p := fun name => decide (name = key)) later
  rw [writeMetadata, split, List.foldl_append, List.foldl_cons, settled, Headers.filter_put_self]

/-- What is found where metadata was written over headers. -/
structure ReadBack (h : Headers) (m : Metadata) : Prop where
  /-- What is written is read, if it is visible ASCII. -/
  read : ∀ key ∈ knownKeys, ∀ value, Written m key value → Readable value →
    (metadataOf (writeMetadata h m)).get? key = some value
  unread : ∀ key ∈ knownKeys, ∀ value, Written m key value → ¬ Readable value →
    (metadataOf (writeMetadata h m)).get? key = none
  left : ∀ key ∈ knownKeys, (∀ value, ¬ Written m key value) →
    (metadataOf (writeMetadata h m)).get? key = (metadataOf h).get? key
  replaced : ∀ name value, Written m name value →
    (writeMetadata h m).filter (fun e => e.name = name) = [⟨name, Text.ofString value⟩]
  untouched : ∀ p : String → Bool, (∀ name value, Written m name value → p name = false) →
    (writeMetadata h m).filter (p ·.name) = h.filter (p ·.name)

/-- Metadata that is written over any headers is read back, as far as it is visible ASCII. Keys that
are not known are never read. -/
theorem written_metadata_is_read_back (h : Headers) (m : Metadata) :
    ReadBack h m ∧
    (∀ key, Metadata.normalise key ∉ knownKeys → (metadataOf h).get? key = none) ∧
    ∀ h' : Headers, (∀ key ∈ knownKeys, h.get? key = h'.get? key) →
      metadataOf h = metadataOf h' := by
  refine ⟨⟨?_, ?_, ?_, ?_, ?_⟩, ?_, ?_⟩
  · intro key known value written readable
    rw [get?_metadataOf_of_known known]
    exact Headers.text?_of_get? (get?_writeMetadata_of_written written h) readable
  · intro key known value written odd
    rw [get?_metadataOf_of_known known]
    exact Headers.text?_of_get?_of_not_readable (get?_writeMetadata_of_written written h) odd
  · intro key known left
    rw [get?_metadataOf_of_known known, get?_metadataOf_of_known known]
    exact Headers.text?_congr (get?_writeMetadata_of_not_written left h)
  · exact fun name value written => filter_writeMetadata_of_written written h
  · intro p out
    exact Headers.filter_foldl_put_of_false (fun e mem => out e.1 e.2 (written_of_mem mem)) h
  · intro key unknown
    rw [get?_metadataOf, if_neg unknown]
  · exact fun h' same => metadataOf_congr fun key known => Headers.text?_congr (same key known)

/-- A token and a route, in several headers each. -/
def repeated : Headers :=
  .ofList [("authorization", .ofString "old"), ("Route", .ofString "here"),
    ("route", .ofString "there"), ("Authorization", .ofString "older")]

theorem token_is_replaced_and_route_stays :
    let m := Metadata.ofList [("Authorization", "new"), ("route", "two\nlines")]
    (metadataOf (writeMetadata repeated m)).get? "authorization" = some "new" ∧
    (metadataOf (writeMetadata repeated m)).get? "route" = some "here" ∧
    (writeMetadata repeated m).filter (·.name = "authorization") =
      [⟨"authorization", Text.ofString "new"⟩] := by
  intro m
  have written : Written m "authorization" "new" := by decide +kernel
  have back := (written_metadata_is_read_back repeated m).1
  have known : "route" ∈ knownKeys := by decide +kernel
  have route : (metadataOf repeated).get? "route" = some "here" := by
    rw [get?_metadataOf_of_known known]
    decide +kernel
  refine ⟨?_, ?_, back.replaced _ _ written⟩
  · exact back.read "authorization" (by decide +kernel) _ written (by decide +kernel)
  · rw [← route]
    refine back.left "route" known ?_
    rintro value ⟨found, written⟩
    have stands : m.valueOf "route" = some "two\nlines" := by decide +kernel
    rw [stands] at found
    cases found
    exact absurd written (by decide +kernel)

theorem accent_is_written_and_not_read :
    let m := Metadata.ofList [("authorization", "é")]
    Written m Metadata.authorizationKey "é" ∧
    (metadataOf (writeMetadata [] m)).get? Metadata.authorizationKey = none := by
  intro m
  constructor <;> decide +kernel

end WalletWatch.Http
