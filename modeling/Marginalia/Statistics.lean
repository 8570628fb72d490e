import Marginalia.Notes
import Marginalia.Text.Line

/-!
# Statistics

How much of a source is commentary, in lines and in characters. A source has one line more than
it has physical lines, for its end, so no source has none. The shares are those of the counts, also
for the sum of several sources.
-/

namespace Marginalia

/-- The number of lines of a source, its end counted as one. -/
def totalLines (source : Text) : Nat :=
  (splitLines source).length + 1

/-- What percentage of `whole` is `part`: 0 when there is nothing, and at most 100. -/
def percentage (part whole : Nat) : Float :=
  if whole = 0 then 0
  else
    let p := Float.ofNat part / Float.ofNat whole * 100
    if p > 100 then 100 else p

/-- A percentage in hundredths, to the nearest; a half is rounded up. -/
def hundredths (p : Float) : Nat :=
  (p * 100).round.toUInt64.toNat

/-- A percentage rounded to two decimals. -/
def roundedPercentage (p : Float) : Float :=
  Float.ofNat (hundredths p) / 100

/-- The counts of commentary in one source, or in several together, with their shares in percent. -/
structure Statistics where
  commentLines : Nat
  totalLines : Nat
  lineRatio : Float
  commentLetters : Nat
  totalLetters : Nat
  letterRatio : Float
  lineRatio_eq : lineRatio = percentage commentLines totalLines
  letterRatio_eq : letterRatio = percentage commentLetters totalLetters
  deriving DecidableEq, Repr

namespace Statistics

/-- The statistics with these counts. -/
def ofCounts (commentLines totalLines commentLetters totalLetters : Nat) : Statistics where
  commentLines
  totalLines
  lineRatio := percentage commentLines totalLines
  commentLetters
  totalLetters
  letterRatio := percentage commentLetters totalLetters
  lineRatio_eq := rfl
  letterRatio_eq := rfl

/-- The statistics of no source at all. -/
def zero : Statistics := ofCounts 0 0 0 0

/-- The statistics of one source. -/
def compute (ns : Notes) (source : Text) : Statistics :=
  ofCounts ns.size (Marginalia.totalLines source) ns.letterCount source.length

/-- The statistics of several sources together. -/
def add (a b : Statistics) : Statistics :=
  ofCounts (a.commentLines + b.commentLines) (a.totalLines + b.totalLines)
    (a.commentLetters + b.commentLetters) (a.totalLetters + b.totalLetters)

instance : Add Statistics := ⟨add⟩

end Statistics

end Marginalia
