import WalletWatch.Context.Basic
import WalletWatch.Failure

set_option autoImplicit false

/-!
# Scripted prices

A stream of prices that is known beforehand: one price after another, each behind a gap, and then an
end of one of three kinds.
-/

namespace WalletWatch

inductive Ending where
  | normal
  | failure (f : Failure)
  | silence
  deriving DecidableEq, Repr

structure Script where
  prices : List Int64
  gap : Millis := 0
  ending : Ending := .normal
  deriving DecidableEq

/-- The script of some items: their prices up to the first failure, which ends it. -/
def Script.ofItems : List (Item Int64) → Script
  | [] => { prices := [] }
  | .ok p :: rest => { Script.ofItems rest with prices := p :: (Script.ofItems rest).prices }
  | .error f :: _ => { prices := [], ending := .failure f }

def Script.items (s : Script) : List (Item Int64) :=
  s.prices.map .ok ++ match s.ending with
    | .failure f => [.error f]
    | _ => []

/-- A script that is being played, and the end of the gap it is in. -/
structure Playback where
  script : Script
  gapEnd? : Option Millis := none
  deriving DecidableEq

inductive Cue where
  | pause (p : Playback)
  | price (p : Int64) (rest : Playback)
  | over (e : Ending)

namespace Playback

def cue? (p : Playback) (now : Millis) : Option Cue :=
  match p.script.prices with
  | [] => some (.over p.script.ending)
  | x :: rest =>
    let played := .price x ⟨{ p.script with prices := rest }, none⟩
    match p.gapEnd? with
    | some instant => if now < instant then none else some played
    | none =>
      if p.script.gap = 0 then some played
      else some (.pause { p with gapEnd? := some (now + p.script.gap) })

def alarm? (p : Playback) : Option Millis := p.gapEnd?

end Playback

end WalletWatch
