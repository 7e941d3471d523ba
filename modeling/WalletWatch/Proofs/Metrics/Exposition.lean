import Std.Data.String.ToInt
import WalletWatch.Proofs.Metrics.Changes
import WalletWatch.Proofs.Metrics.LabelText

set_option autoImplicit false

/-!
# The text of metrics read back

Each series is one line of the text, and the line tells which series it is and what its value is. So
the lines, in any order, tell the metrics.
-/

namespace WalletWatch

namespace Meter

def all : List Meter := [.validations, .active, .updates]

/-- The name of a family in the text. -/
def name : Meter → String
  | .validations => "coinwallet_validations_total"
  | .active => "coinwallet_streams_active"
  | .updates => "coinwallet_stream_updates_total"

def kind : Meter → String
  | .validations | .updates => "counter"
  | .active => "gauge"

/-- The line in front of the series of a family. -/
def heading (meter : Meter) : String := "# TYPE " ++ meter.name ++ " " ++ meter.kind

/-- The line of a series. -/
def line (meter : Meter) (s : Labels × Int) : String :=
  meter.name ++ "\x7b" ++ s.1.render ++ "\x7d " ++ s.2.repr

theorem notMem_name (meter : Meter) : '\x7b' ∉ meter.name.toList ∧ '\n' ∉ meter.name.toList := by
  cases meter <;> decide

theorem toList_line (meter : Meter) (s : Labels × Int) :
    (meter.line s).toList =
      meter.name.toList ++ '\x7b' :: (s.1.render.toList ++ '\x7d' :: ' ' :: s.2.repr.toList) := by
  simp [line]

end Meter

theorem Family.lines_eq {ν : Type} [ToString ν] (f : Family ν) {toInt : ν → Int}
    (shown : ∀ v : ν, toString v = (toInt v).repr) (name kind : String) :
    f.lines name kind = ("# TYPE " ++ name ++ " " ++ kind) ::
      (f.read toInt).map fun s => name ++ "\x7b" ++ s.1.render ++ "\x7d " ++ s.2.repr := by
  rw [lines, read, List.map_map]
  refine congrArg _ (List.map_congr_left fun s _ => ?_)
  exact congrArg (name ++ "\x7b" ++ s.1.render ++ "\x7d " ++ ·) (shown s.2)

namespace Metrics

/-- Each family has its heading, and below it one line for each series. -/
theorem lines_eq (m : Metrics) :
    m.lines = Meter.all.flatMap fun meter => meter.heading :: (m.series meter).map meter.line := by
  have counted (v : UInt64) : toString v = ((v.toNat : Int)).repr := rfl
  have signed (v : Int64) : toString v = v.toInt.repr := rfl
  rw [lines, m.validations.lines_eq counted, m.active.lines_eq signed,
    m.updates.lines_eq counted]
  simp only [Meter.all, List.flatMap_cons, List.flatMap_nil, List.append_nil, List.append_assoc]
  rfl

/-- The series that a line is about, and its value. -/
def readLine (line : String) : Option (Meter × Labels × Int) :=
  match Meter.all.find? fun meter => meter.name.toList = line.toList.takeWhile (· ≠ '\x7b'),
    Labels.readUpTo ((line.toList.dropWhile (· ≠ '\x7b')).drop 1) with
  | some meter, some (labels, ' ' :: digits) =>
    (String.ofList digits).toInt?.map fun value => (meter, labels, value)
  | _, _ => none

theorem readLine_line {meter : Meter} {s : Labels × Int} (named : s.1.Named) :
    readLine (meter.line s) = some (meter, s) := by
  have inName : ∀ c ∈ meter.name.toList, decide (c ≠ '\x7b') = true := fun c mem =>
    decide_eq_true fun brace => meter.notMem_name.1 (brace ▸ mem)
  have name : (meter.line s).toList.takeWhile (· ≠ '\x7b') = meter.name.toList := by
    rw [Meter.toList_line, List.takeWhile_append_of_pos inName]
    simp
  have behind : ((meter.line s).toList.dropWhile (· ≠ '\x7b')).drop 1 =
      s.1.render.toList ++ '\x7d' :: ' ' :: s.2.repr.toList := by
    rw [Meter.toList_line, List.dropWhile_append_of_pos inName]
    simp
  have found :
      (Meter.all.find? fun other => other.name.toList = meter.name.toList) = some meter := by
    cases meter <;> decide
  rw [readLine, name, behind, found, Labels.readUpTo_render named]
  simp [Int.toInt?_repr]

theorem readLine_heading (meter : Meter) : readLine meter.heading = none := by
  cases meter <;> rfl

/-- The series of a meter that some lines are about. -/
def readAll (meter : Meter) (lines : List String) : List (Labels × Int) :=
  lines.filterMap fun line =>
    (readLine line).bind fun (other, s) => if other = meter then some s else none

theorem readAll_family {other : Meter} (meter : Meter) {series : List (Labels × Int)}
    (named : ∀ s ∈ series, s.1.Named) :
    readAll meter (other.heading :: series.map other.line) =
      if other = meter then series else [] := by
  rw [readAll, List.filterMap_cons_none (by rw [readLine_heading]; rfl)]
  induction series with
  | nil => simp
  | cons s series ih =>
    obtain ⟨first, named⟩ := List.forall_mem_cons.mp named
    rw [List.map_cons, List.filterMap_cons, readLine_line first, ih named]
    by_cases same : other = meter
    · simp [same]
    · simp [same]

/-- The labels of all series have names. -/
def Named (m : Metrics) : Prop := ∀ meter, ∀ s ∈ m.series meter, s.1.Named

theorem readAll_lines {m : Metrics} (named : m.Named) (meter : Meter) :
    readAll meter m.lines = m.series meter := by
  have families : readAll meter m.lines =
      Meter.all.flatMap fun other => if other = meter then m.series other else [] := by
    rw [lines_eq, readAll, List.filterMap_flatMap]
    exact congrArg (Meter.all.flatMap ·) (funext fun other => readAll_family meter (named other))
  rw [families]
  cases meter <;> simp [Meter.all]

/-! ## Lines of the text -/

theorem newline_notMem_repr (n : Int) : '\n' ∉ n.repr.toList := by
  have digits (k : Nat) : '\n' ∉ k.repr.toList := fun mem => by
    rw [Nat.toList_repr] at mem
    exact absurd (Nat.isDigit_of_mem_toDigits (by decide) (by decide) mem) (by decide)
  rw [Int.repr_eq_if]
  split
  · exact digits _
  · rw [String.toList_append, List.mem_append]
    rintro (sign | mem)
    · exact absurd sign (by decide)
    · exact digits _ mem

theorem newline_notMem_line (meter : Meter) {s : Labels × Int} (named : s.1.Named) :
    '\n' ∉ (meter.line s).toList := by
  rw [Meter.toList_line]
  simp [meter.notMem_name.2, Labels.newline_notMem_render named, newline_notMem_repr]

theorem newline_notMem_lines {m : Metrics} (named : m.Named) :
    ∀ line ∈ m.lines, '\n' ∉ line.toList := by
  intro line mem
  rw [lines_eq, List.mem_flatMap] at mem
  obtain ⟨meter, -, mem⟩ := mem
  rcases List.mem_cons.mp mem with rfl | mem
  · cases meter <;> decide
  · obtain ⟨s, entry, rfl⟩ := List.mem_map.mp mem
    exact newline_notMem_line meter (named meter s entry)

/-- The text of metrics, cut at each newline. -/
def textLines (m : Metrics) : List String := (m.render.split '\n').toList.map (·.copy)

theorem join_map_newline (lines : List String) :
    String.join (lines.map (· ++ "\n")) = "\n".intercalate (lines ++ [""]) := by
  induction lines with
  | nil => rfl
  | cons line lines ih =>
    rw [List.map_cons, String.join_cons, ih, List.cons_append,
      String.intercalate_cons_of_ne_nil (by simp)]

/-- Cut at its newlines the text gives the lines, and nothing behind the last one. -/
theorem textLines_eq {m : Metrics} (named : m.Named) : m.textLines = m.lines ++ [""] := by
  have apart : ∀ line ∈ m.lines ++ [""], '\n' ∉ line.toList := by
    intro line mem
    rcases List.mem_append.mp mem with mem | mem
    · exact newline_notMem_lines named line mem
    · rw [List.mem_singleton.mp mem]
      exact List.not_mem_nil
  have cut := String.toList_split_intercalate apart
  rw [if_neg (by simp)] at cut
  rw [textLines, render, join_map_newline]
  exact cut

theorem textLines_perm_iff {m m' : Metrics} (named : m.Named) (named' : m'.Named) :
    m.textLines.Perm m'.textLines ↔ ∀ meter, (m.series meter).Perm (m'.series meter) := by
  rw [textLines_eq named, textLines_eq named', List.perm_append_right_iff]
  constructor
  · intro perm meter
    rw [← readAll_lines named, ← readAll_lines named']
    exact perm.filterMap _
  · intro same
    rw [lines_eq, lines_eq]
    exact List.Perm.flatMap_left _ fun meter _ => ((same meter).map _).cons _

theorem named_changed {l : List Change} (named : ∀ c ∈ l, c.labels.Named) :
    (changed {} l).Named := by
  intro meter s mem
  have key : s.1 ∈ (changed {} l).keys meter := List.mem_map_of_mem mem
  rcases (mem_keys_changed {} l meter s.1).mp key with old | ⟨c, mem, -, sorted⟩
  · cases meter <;> cases old
  · rw [← sorted]
    exact (named c mem).perm (Labels.sorted_perm c.labels).symm

theorem Named.of_perm {m m' : Metrics} (h : m.Named)
    (same : ∀ meter, (m.series meter).Perm (m'.series meter)) : m'.Named :=
  fun meter s mem => h meter s ((same meter).mem_iff.mpr mem)

/-- Metrics with names for their labels, in which a family lists each series once. -/
structure Legible (m : Metrics) : Prop where
  proper : m.Proper
  named : m.Named

/-- The text of metrics tells what they are, line by line. -/
structure Readable (m : Metrics) : Prop where
  text : m.textLines =
    (Meter.all.flatMap fun meter => meter.heading :: (m.series meter).map meter.line) ++ [""]
  /-- Two lines of a family are about different labels. -/
  apart : ∀ meter, (m.series meter).Pairwise fun s t => ¬ s.1.Perm t.1
  back : ∀ meter, ∀ s ∈ m.series meter, readLine (meter.line s) = some (meter, s)

theorem Legible.readable {m : Metrics} (h : m.Legible) : m.Readable where
  text := by
    rw [textLines_eq h.named, lines_eq]
  apart meter := h.proper.pairwise_series meter
  back meter s mem := readLine_line (h.named meter s mem)

/-- However the values of labels look, the text of metrics can be read in one way only. Whatever
changes were made, and in whatever order the families list their series, it has one line for each
series; the line gives back the labels and the value; and metrics with the same lines, in any order,
have the same series and answer the same. -/
theorem metrics_text_is_unambiguous :
    (∀ (l : List Change) (m : Metrics), (∀ c ∈ l, c.labels.Named) →
      (∀ meter, ((changed {} l).series meter).Perm (m.series meter)) → m.Legible) ∧
    (∀ m : Metrics, m.Legible → m.Readable) ∧
    (∀ label : String × String, (Labels.renderOne label).toList = label.1.toList ++ '=' :: '"' ::
      (Labels.replace '\n' ['\\', 'n'] (Labels.replace '"' ['\\', '"']
        (Labels.replace '\\' ['\\', '\\'] label.2.toList)) ++ ['"'])) ∧
    (∀ labels other : Labels, labels.Named → other.Named →
      (labels.sorted.render = other.sorted.render ↔ labels.Perm other)) ∧
    ∀ m m' : Metrics, m.Legible → m'.Legible → m.textLines.Perm m'.textLines →
      ∀ meter, (m.series meter).Perm (m'.series meter) ∧
        ∀ labels, MetricsSession.get m labels meter = MetricsSession.get m' labels meter := by
  refine ⟨fun l m named same => ?_, fun m => Legible.readable, fun label => ?_,
    fun labels other => Labels.render_sorted_eq_iff, ?_⟩
  · exact ⟨(proper_empty.changed l).of_perm same, (named_changed named).of_perm same⟩
  · rw [← Labels.flatMap_escape_eq, Labels.toList_renderOne]
  · intro m m' h h' perm meter
    have same := (textLines_perm_iff h.named h'.named).mp perm meter
    exact ⟨same, h.proper.get_eq_of_perm same⟩

/-- Values that look like the end of labels, like a line of their own and like an escape. -/
def disguises : List Change :=
  [.add .validations [("outcome", "a\"\x7d 7\nb")] 2, .add .validations [("outcome", "\\n")] 5,
    .add .active [("svc", "")] (-1)]

theorem disguised_values_keep_their_lines :
    (changed {} disguises).Legible ∧ (changed {} disguises.reverse).Legible ∧
    (changed {} disguises).textLines =
      ["# TYPE coinwallet_validations_total counter",
        "coinwallet_validations_total\x7boutcome=\"a\\\"\x7d 7\\nb\"\x7d 2",
        "coinwallet_validations_total\x7boutcome=\"\\\\n\"\x7d 5",
        "# TYPE coinwallet_streams_active gauge",
        "coinwallet_streams_active\x7bsvc=\"\"\x7d -1",
        "# TYPE coinwallet_stream_updates_total counter", ""] ∧
    ((changed {} disguises).series .validations).Perm
      ((changed {} disguises.reverse).series .validations) := by
  have legible : (changed {} disguises).Legible :=
    metrics_text_is_unambiguous.1 disguises _ (by unfold Labels.Named; decide) fun _ => .refl _
  have legible' : (changed {} disguises.reverse).Legible :=
    metrics_text_is_unambiguous.1 disguises.reverse _ (by unfold Labels.Named; decide)
      fun _ => .refl _
  have text := (metrics_text_is_unambiguous.2.1 _ legible).text
  have text' := (metrics_text_is_unambiguous.2.1 _ legible').text
  refine ⟨legible, legible', ?_, ?_⟩
  · rw [text]
    cbv
  · refine (metrics_text_is_unambiguous.2.2.2.2 _ _ legible legible' ?_ .validations).1
    rw [text, text']
    cbv
    exact (List.Perm.swap _ _ _).cons _

end Metrics

end WalletWatch
