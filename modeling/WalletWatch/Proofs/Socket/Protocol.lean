import WalletWatch.Proofs.Chain.Delivery
import WalletWatch.Proofs.Message.RoundTrip
import WalletWatch.Socket.Pump
import WalletWatch.Socket.Reader

set_option autoImplicit false

/-!
# Streams over sockets

The pump and the reader meet at the list of messages between them. The pump is followed through any
interleaving of its stream with what its peer sends, and the reader through any messages at all,
those of a pump with others in between among them.
-/

namespace WalletWatch.Socket

open Chain (upToFailure)

/-! ## What the pump sends -/

def Message.isClose : Message → Bool
  | .close .. => true
  | _ => false

def Message.isPong : Message → Bool
  | .pong _ => true
  | _ => false

/-- Whether something taken up comes from the stream, not from the peer. -/
def Intake.ofStream {α : Type} : Intake α → Bool
  | .item _ | .ended => true
  | .message _ | .lost => false

section Pumping

variable {α : Type} [Wire α]

theorem Pump.run_stopped {p : Pump} (stopped : p.running = false) (l : List (Intake α)) :
    p.run l = p := by
  induction l with
  | nil => rfl
  | cons x l ih =>
    have skipped : p.take x = p := by simp [Pump.take, stopped]
    change (p.take x).run l = p
    rw [skipped, ih]

theorem Pump.take_ok {p : Pump} (running : p.running = true) (a : α) :
    p.take (.item (.ok a)) = ⟨p.sent ++ [frameOf (.ok a)], true⟩ := by
  simp [Pump.take, running, Intake.effect]

theorem Pump.take_error {p : Pump} (running : p.running = true) (f : Failure) :
    p.take (.item (.error f) : Intake α) =
      ⟨p.sent ++ [frameOf (α := α) (.error f), normalClose], false⟩ := by
  simp [Pump.take, running, Intake.effect]

theorem Pump.take_ended {p : Pump} (running : p.running = true) :
    p.take (.ended : Intake α) = ⟨p.sent ++ [normalClose], false⟩ := by
  simp [Pump.take, running, Intake.effect]

/-- What a peer sends, short of a close, leaves a pump running, and brings at most a pong. -/
theorem Pump.take_message {p : Pump} (running : p.running = true) {m : Message}
    (unclosed : m.isClose = false) : ∃ pongs : List Message,
      p.take (.message m : Intake α) = ⟨p.sent ++ pongs, true⟩ ∧
      pongs.filter (!·.isPong) = [] := by
  cases m with
  | close code reason => cases unclosed
  | ping t => exact ⟨[.pong t], by simp [Pump.take, running, Intake.effect], rfl⟩
  | text s => exact ⟨[], by simp [Pump.take, running, Intake.effect], rfl⟩
  | binary t => exact ⟨[], by simp [Pump.take, running, Intake.effect], rfl⟩
  | pong t => exact ⟨[], by simp [Pump.take, running, Intake.effect], rfl⟩

/-- A running pump, fed with a stream between messages of its peer, sends the items up to the first
failure and then closes. -/
theorem Pump.run_stream {items : List (Item α)} {l : List (Intake α)} {p : Pump}
    (running : p.running = true)
    (stream : l.filter Intake.ofStream = items.map Intake.item ++ [.ended])
    (unclosed : ∀ x ∈ l, x ≠ .lost ∧ ∀ m, x = .message m → m.isClose = false) :
    ∃ front : List Message,
      p.run l = ⟨p.sent ++ front ++ [normalClose], false⟩ ∧
      front.filter (!·.isPong) = (upToFailure items).map frameOf := by
  -- A message of the peer leaves the items as they are, and an item leaves the stream behind it, so
  -- both the items and the pump vary.
  induction l generalizing items p with
  | nil =>
    have lengths := congrArg List.length stream
    simp at lengths
  | cons x l ih =>
    obtain ⟨here, later⟩ := List.forall_mem_cons.mp unclosed
    have step : p.run (x :: l) = (p.take x).run l := rfl
    cases x with
    | lost => exact absurd rfl here.1
    | message m =>
      obtain ⟨pongs, taken, silent⟩ := Pump.take_message (α := α) running (here.2 m rfl)
      obtain ⟨front, ran, sent⟩ := ih (p := ⟨p.sent ++ pongs, true⟩) rfl stream later
      refine ⟨pongs ++ front, ?_, ?_⟩
      · rw [step, taken, ran]
        simp only [List.append_assoc]
      · rw [List.filter_append, silent, sent, List.nil_append]
    | ended =>
      cases items with
      | cons i items => cases (List.cons.inj stream).1
      | nil =>
        refine ⟨[], ?_, rfl⟩
        rw [step, Pump.take_ended running, Pump.run_stopped rfl, List.append_nil]
    | item i =>
      cases items with
      | nil => cases (List.cons.inj stream).1
      | cons j items =>
        obtain ⟨same, behind⟩ := List.cons.inj stream
        cases same
        cases i with
        | ok a =>
          obtain ⟨front, ran, sent⟩ :=
            ih (p := ⟨p.sent ++ [frameOf (.ok a)], true⟩) rfl behind later
          refine ⟨frameOf (.ok a) :: front, ?_, ?_⟩
          · rw [step, Pump.take_ok running, ran]
            simp only [List.append_assoc, List.cons_append, List.nil_append]
          · have kept : (!(frameOf (.ok a)).isPong) = true := rfl
            simp only [List.filter_cons, kept, if_true, sent, upToFailure, List.map_cons]
        | error f =>
          refine ⟨[frameOf (α := α) (.error f)], ?_, rfl⟩
          rw [step, Pump.take_error running, Pump.run_stopped rfl, List.append_assoc]
          rfl

/-- Items that come alone are sent up to the first failure; a close follows, if anything does. -/
theorem Pump.sent_items {p : Pump} (running : p.running = true) (items : List (Item α))
    {rest : List (Intake α)} (last : rest = [] ∨ rest = [.ended]) : ∃ tail : List Message,
      (p.run (items.map Intake.item ++ rest)).sent =
        p.sent ++ (upToFailure items).map frameOf ++ tail ∧
      (tail = [] ∨ tail = [normalClose]) := by
  induction items generalizing p with
  | nil =>
    rcases last with rfl | rfl
    · exact ⟨[], by simp [upToFailure, Pump.run], .inl rfl⟩
    · exact ⟨[normalClose], by
        simp [upToFailure, Pump.run, Pump.take, running, Intake.effect], .inr rfl⟩
  | cons i items ih =>
    have step : p.run ((i :: items).map Intake.item ++ rest) =
        (p.take (.item i)).run (items.map Intake.item ++ rest) := rfl
    cases i with
    | ok a =>
      obtain ⟨tail, ran, close⟩ := ih (p := ⟨p.sent ++ [frameOf (.ok a)], true⟩) rfl
      refine ⟨tail, ?_, close⟩
      rw [step, Pump.take_ok running, ran]
      simp only [upToFailure, List.map_cons, List.append_assoc, List.cons_append, List.nil_append]
    | error f =>
      refine ⟨[normalClose], ?_, .inr rfl⟩
      rw [step, Pump.take_error running, Pump.run_stopped rfl]
      simp [upToFailure]

theorem Pump.sent_messages (items : List (Item α)) (ends : Bool) : ∃ tail : List Message,
    messages items ends = (upToFailure items).map frameOf ++ tail ∧
      (tail = [] ∨ tail = [normalClose]) := by
  cases ends with
  | true => exact Pump.sent_items (p := {}) rfl items (.inr rfl)
  | false => exact Pump.sent_items (p := {}) rfl items (.inl rfl)

end Pumping

/-! ## What the reader makes of any messages -/

/-- Whether a reader passes something over. -/
def Event.silent : Event → Bool
  | .message (.binary _) | .message (.ping _) | .message (.pong _) => true
  | _ => false

section Reading

variable {α : Type} [Wire α]

/-- The value that comes as a text, if it is the frame of an item. -/
def Event.value? : Event → Option α
  | .message (.text s) =>
    match Wire.decode (Text.ofString s) with
    | .ok (Frame.item a) => some a
    | _ => none
  | _ => none

/-- What comes before a reader stops, but for what it passes over. -/
def Event.isItem (α : Type) [Wire α] (e : Event) : Bool := (e.value? : Option α).isSome

/-- The values that come before a reader stops. -/
def heard (events : List Event) : List α :=
  ((events.filter (!·.silent)).takeWhile (Event.isItem α)).filterMap Event.value?

/-- What a reader stops at, if anything. -/
def stop? (α : Type) [Wire α] (events : List Event) : Option Event :=
  ((events.filter (!·.silent)).dropWhile (Event.isItem α)).head?

/-- What a reader gives for what it stops at: nothing at the end and at a close, and one failure
otherwise. -/
def outcome : Option Event → List (Item α)
  | some (.broken reason) => [.error ⟨.unavailable, "stream broken: " ++ reason⟩]
  | some (.message (.text s)) =>
    match (Wire.decode (Text.ofString s) : Except Json.Reject (Frame α)) with
    | .ok (.error b) => [.error b.toFailure]
    | .ok (.item _) => []
    | .error e => [.error ⟨.internal, "malformed stream frame: " ++ e.reason⟩]
  | _ => []

theorem heard_cons_silent {e : Event} (h : e.silent = true) (events : List Event) :
    (heard (e :: events) : List α) = heard events := by
  simp [heard, h]

theorem stop?_cons_silent {e : Event} (h : e.silent = true) (events : List Event) :
    stop? α (e :: events) = stop? α events := by
  simp [stop?, h]

theorem heard_cons_value {e : Event} (loud : e.silent = false) {a : α} (h : e.value? = some a)
    (events : List Event) : (heard (e :: events) : List α) = a :: heard events := by
  simp [heard, loud, Event.isItem, h]

theorem stop?_cons_value {e : Event} (loud : e.silent = false) {a : α} (h : e.value? = some a)
    (events : List Event) : stop? α (e :: events) = stop? α events := by
  simp [stop?, loud, Event.isItem, h]

theorem heard_cons_stop {e : Event} (loud : e.silent = false)
    (h : (e.value? : Option α) = none) (events : List Event) :
    (heard (e :: events) : List α) = [] := by
  simp [heard, loud, Event.isItem, h]

theorem stop?_cons_stop {e : Event} (loud : e.silent = false)
    (h : (e.value? : Option α) = none) (events : List Event) :
    stop? α (e :: events) = some e := by
  simp [stop?, loud, Event.isItem, h]

/-! A reader takes one step for each thing that comes. -/

theorem read_cons_silent {e : Event} (h : e.silent = true) (events : List Event) :
    (read (e :: events) : List (Item α)) = read events := by
  match e, h with
  | .message (.binary _), _ | .message (.ping _), _ | .message (.pong _), _ => rfl

theorem read_cons_value {e : Event} {a : α} (h : e.value? = some a) (events : List Event) :
    (read (e :: events) : List (Item α)) = .ok a :: read events := by
  match e, h with
  | .message (.text s), h =>
    have decoded : Wire.decode (Text.ofString s) = .ok (Frame.item a) := by
      simp only [Event.value?] at h
      split at h
      · next b eq => rw [eq, Option.some.inj h]
      · cases h
    have item : (itemOf s : Item α) = .ok a := by
      simp only [itemOf, Frame.decode, decoded, Frame.toItem]
    simp only [read, item]

theorem read_cons_stop {e : Event} (loud : e.silent = false)
    (h : (e.value? : Option α) = none) (events : List Event) :
    (read (e :: events) : List (Item α)) = outcome (some e) := by
  match e, loud, h with
  | .broken _, _, _ | .message (.close ..), _, _ => rfl
  | .message (.text s), _, h =>
    cases decoded : (Wire.decode (Text.ofString s) : Except Json.Reject (Frame α)) with
    | error r =>
      have item : (itemOf s : Item α) =
          .error ⟨.internal, "malformed stream frame: " ++ r.reason⟩ := by
        simp only [itemOf, Frame.decode, decoded]
      simp only [read, item, outcome, decoded]
    | ok f =>
      cases f with
      | item a => simp [Event.value?, decoded] at h
      | error b =>
        have item : (itemOf s : Item α) = .error b.toFailure := by
          simp only [itemOf, Frame.decode, decoded, Frame.toItem]
        simp only [read, item, outcome, decoded]

/-- A reader gives the values that come before it stops, and one failure at most behind them. -/
theorem read_eq (events : List Event) :
    (read events : List (Item α)) = (heard events).map .ok ++ outcome (stop? α events) := by
  induction events with
  | nil => rfl
  | cons e events ih =>
    cases loud : e.silent with
    | true => rw [read_cons_silent loud, heard_cons_silent loud, stop?_cons_silent loud, ih]
    | false =>
      cases h : (e.value? : Option α) with
      | some a =>
        rw [read_cons_value h, heard_cons_value loud h, stop?_cons_value loud h, ih]
        rfl
      | none =>
        rw [read_cons_stop loud h, heard_cons_stop loud h, stop?_cons_stop loud h]
        rfl

/-- What comes behind the place where a reader stops does not matter. -/
theorem read_append {events : List Event} (stops : stop? α events ≠ none) (more : List Event) :
    (read (events ++ more) : List (Item α)) = read events := by
  induction events with
  | nil => exact absurd rfl stops
  | cons e events ih =>
    rw [List.cons_append]
    cases loud : e.silent with
    | true =>
      rw [stop?_cons_silent loud] at stops
      rw [read_cons_silent loud, read_cons_silent loud, ih stops]
    | false =>
      cases h : (e.value? : Option α) with
      | some a =>
        rw [stop?_cons_value loud h] at stops
        rw [read_cons_value h, read_cons_value h, ih stops]
      | none => rw [read_cons_stop loud h, read_cons_stop loud h]

end Reading

/-! ## A pump and a reader -/

section Meeting

variable {α : Type} [Wire α]

theorem read_filter (events : List Event) :
    (read (events.filter (!·.silent)) : List (Item α)) = read events := by
  induction events with
  | nil => rfl
  | cons e events ih =>
    cases loud : e.silent with
    | true =>
      have passed : (e :: events).filter (!·.silent) = events.filter (!·.silent) := by simp [loud]
      rw [passed, read_cons_silent loud, ih]
    | false =>
      have kept : (e :: events).filter (!·.silent) = e :: events.filter (!·.silent) := by
        simp [loud]
      rw [kept]
      cases h : (e.value? : Option α) with
      | some a => rw [read_cons_value h, read_cons_value h, ih]
      | none => rw [read_cons_stop loud h, read_cons_stop loud h]

/-- The pongs among what a pump sent are passed over; the frames are not. -/
theorem loud_of_frames {items : List (Item α)} {front : List Message}
    (frames : front.filter (!·.isPong) = (upToFailure items).map frameOf) :
    (front.map Event.message).filter (!·.silent) =
      ((upToFailure items).map frameOf).map Event.message := by
  have pongs : ∀ m : Message, (!(Event.message m).silent && !m.isPong) =
      !(Event.message m).silent := by
    intro m
    cases m <;> rfl
  have texts : ((upToFailure items).map frameOf).filter (fun m => !(Event.message m).silent) =
      (upToFailure items).map frameOf := by
    refine List.filter_eq_self.mpr fun m hm => ?_
    obtain ⟨i, -, rfl⟩ := List.mem_map.mp hm
    rfl
  calc (front.map Event.message).filter (!·.silent)
      = (front.filter (fun m => !(Event.message m).silent)).map Event.message := List.filter_map
    _ = ((front.filter (!·.isPong)).filter (fun m => !(Event.message m).silent)).map
          Event.message := by
        simp only [List.filter_filter, pongs]
    _ = ((upToFailure items).map frameOf).map Event.message := by rw [frames, texts]

variable [LawfulWire α]

theorem value?_frameOf (a : α) : (Event.message (frameOf (.ok a))).value? = some a := by
  have decoded := Wire.decode_encode (Frame.item a)
  simp only [frameOf, Frame.ofItem, Frame.encode, Event.value?, decoded]

theorem read_cons_failure (f : Failure) (events : List Event) :
    read (.message (frameOf (α := α) (.error f)) :: events) = ([.error f] : List (Item α)) := by
  have decoded := Wire.decode_encode (Frame.error (α := α) (FailureBody.ofFailure f))
  have item : (itemOf (Frame.encode (.error (α := α) (FailureBody.ofFailure f))) : Item α) =
      .error f := by
    simp only [itemOf, Frame.decode, Frame.encode, decoded, Frame.toItem,
      FailureBody.toFailure_ofFailure]
  simp only [frameOf, Frame.ofItem, read, item]

theorem read_frames (items : List (Item α)) {rest : List Event}
    (last : (read rest : List (Item α)) = []) :
    read (((upToFailure items).map frameOf).map Event.message ++ rest) = upToFailure items := by
  induction items with
  | nil => exact last
  | cons i items ih =>
    cases i with
    | error f => exact read_cons_failure f _
    | ok a =>
      have step := read_cons_value (value?_frameOf a)
        (((upToFailure items).map frameOf).map Event.message ++ rest)
      rw [ih] at step
      exact step

theorem read_messages (items : List (Item α)) (ends : Bool) :
    read ((messages items ends).map Event.message) = upToFailure items := by
  obtain ⟨tail, sent, close⟩ := Pump.sent_messages items ends
  rw [sent, List.map_append]
  refine read_frames items ?_
  rcases close with rfl | rfl <;> rfl

/-- A reader that sees what a pump sent, with anything that it passes over in between, gives the
items up to the first failure. -/
theorem read_pumped {items : List (Item α)} {front : List Message} {events : List Event}
    (frames : front.filter (!·.isPong) = (upToFailure items).map frameOf)
    (seen : events.filter (!·.silent) =
      ((front ++ [normalClose]).map Event.message).filter (!·.silent)) (more : List Event) :
    read (events ++ more) = upToFailure items := by
  have loud : (events ++ more).filter (!·.silent) =
      ((upToFailure items).map frameOf).map Event.message ++
        (.message normalClose :: more.filter (!·.silent)) := by
    simp only [List.filter_append, seen, List.map_append, loud_of_frames frames, List.append_assoc]
    rfl
  rw [← read_filter, loud]
  exact read_frames items rfl

end Meeting

/-- A stream over a socket. A pump that is fed with a stream, between any messages of its peer but a
close, sends a text for every item up to the first failure and then one close; a reader of that,
with anything in between that it passes over, gives those items. Whatever comes over a socket at
all, a reader gives the values up to the first thing that is none, then one failure at most, and
nothing that comes behind that place counts. -/
theorem streams_over_sockets (t : WireType) :
    (∀ (items : List (Item t.Carrier)) (l : List (Intake t.Carrier)),
      l.filter Intake.ofStream = items.map Intake.item ++ [.ended] →
      (∀ x ∈ l, x ≠ .lost ∧ ∀ m, x = .message m → m.isClose = false) →
      (({} : Pump).run l).running = false ∧
      (∃ front : List Message, (({} : Pump).run l).sent = front ++ [normalClose] ∧
        front.filter (!·.isPong) = (upToFailure items).map frameOf) ∧
      ∀ events more : List Event, events.filter (!·.silent) =
          ((({} : Pump).run l).sent.map Event.message).filter (!·.silent) →
        read (events ++ more) = upToFailure items) ∧
    (∀ events : List Event, (read events : List (Item t.Carrier)) =
      (heard events).map .ok ++ outcome (stop? t.Carrier events)) ∧
    ∀ events more : List Event, stop? t.Carrier events ≠ none →
      (read (events ++ more) : List (Item t.Carrier)) = read events := by
  refine ⟨fun items l stream unclosed => ?_, read_eq, ?_⟩
  · obtain ⟨front, ran, frames⟩ := Pump.run_stream (p := {}) rfl stream unclosed
    rw [ran]
    exact ⟨rfl, ⟨front, rfl, frames⟩, fun events more seen => read_pumped frames seen more⟩
  · intro events more stops
    exact read_append stops more

/-- A stream of prices that fails before its last item. -/
def failingPrices : List (Item PriceQuote) :=
  [.ok ⟨5⟩, .error ⟨.unavailable, "feed \"lost\""⟩, .ok ⟨7⟩]

/-- That stream, with a peer that talks all the time. -/
def failingIntakes : List (Intake PriceQuote) :=
  [.message (.ping []), .item (.ok ⟨5⟩), .message (.text "go on"),
    .item (.error ⟨.unavailable, "feed \"lost\""⟩), .item (.ok ⟨7⟩), .message (.binary []), .ended]

theorem failing_prices_over_sockets :
    let behind : List Event := [.message (.text "more"), .broken "reset"]
    (({} : Pump).run failingIntakes).running = false ∧
      read ((({} : Pump).run failingIntakes).sent.map Event.message ++ behind) =
        failingPrices.take 2 ∧
      (read ([.message (.binary []), .broken "reset"] ++ behind) : List (Item PriceQuote)) =
        read [.message (.binary []), .broken "reset"] := by
  intro behind
  obtain ⟨pumped, -, stops⟩ := streams_over_sockets .priceQuote
  have unclosed : ∀ x ∈ failingIntakes, x ≠ .lost ∧ ∀ m, x = .message m → m.isClose = false := by
    simp [failingIntakes, Message.isClose]
  obtain ⟨ended, -, seen⟩ := pumped failingPrices failingIntakes rfl unclosed
  exact ⟨ended, seen _ behind rfl, stops _ behind (by decide)⟩

end WalletWatch.Socket
