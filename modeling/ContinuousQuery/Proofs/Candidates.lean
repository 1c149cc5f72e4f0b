import ContinuousQuery.Proofs.Duplicates
import ContinuousQuery.Proofs.JoinRun

/-!
The candidates of an arrival against the whole other side. In a store that was filled through
the keys of a join, the candidates contain every partner of the arrival as often as the other
side does and in the same order. So a join yields the same results from either.
-/

namespace ContinuousQuery

namespace JoinKeys

open JoinState

variable {keys : JoinKeys} {store : Store}

def scanSide (store : Store) (side : Side) : List Solution :=
  (Store.scan store (components [side.text])).map (·.2)

theorem Keyed.scanSide_eq (keyed : keys.Keyed store) (side : Side) :
    scanSide store side = keys.arrivedOn store side := by
  rw [scanSide, Store.scan_eq_filter, arrivedOn]
  refine congrArg (List.map Prod.snd) (List.filter_congr fun entry member => ?_)
  obtain ⟨origin, stored⟩ := keyed entry member
  rw [Bool.eq_iff_iff, decide_eq_true_iff]
  constructor
  · intro begins
    rw [stored] at begins
    rw [← side_eq_of_hasPrefix begins]
    exact stored
  · intro here
    rw [here]
    exact hasPrefix_key (keyParts_eq keys side entry.2)

theorem Keyed.insert (keyed : keys.Keyed store) (side : Side) (solution : Solution) :
    keys.Keyed ((keys.insert? store side solution).getD store) := by
  simp only [insert?]
  split
  next => exact keyed
  next => exact keyed_put keyed side solution

theorem Keyed.insertAll (keyed : keys.Keyed store) (arrivals : List Arrival) :
    keys.Keyed (keys.insertAll store arrivals) := by
  induction arrivals generalizing store with
  | nil => exact keyed
  | cons arrival rest ih => exact ih (keyed.insert arrival.1 arrival.2)

theorem Keyed.count_candidates (keyed : keys.Keyed store) (side : Side) {probe stored : Solution}
    (compatible : Solution.Compatible probe stored) :
    (keys.candidates store side probe).count stored =
      (keys.arrivedOn store side.opposite).count stored := by
  let partner (other : Solution) : Bool := (Solution.join probe other).isSome
  have joins : partner stored = true := Solution.isSome_join_iff.mpr compatible
  have skips : ∀ other, ¬Solution.Compatible probe other → Option.guard partner other = none := by
    intro other apart
    simpa [partner, Option.guard, Solution.isSome_join_iff] using apart
  have partners : (keys.candidates store side probe).filter partner =
      (keys.arrivedOn store side.opposite).filter partner := by
    rw [← List.filterMap_eq_filter, filterMap_candidates keyed side probe skips]
  calc (keys.candidates store side probe).count stored
      = ((keys.candidates store side probe).filter partner).count stored :=
        (List.count_filter joins).symm
    _ = ((keys.arrivedOn store side.opposite).filter partner).count stored := by rw [partners]
    _ = (keys.arrivedOn store side.opposite).count stored := List.count_filter joins

/-- To join an arrival with its candidates is to join it with all of the other side, whatever the
solutions bind and whatever has been refused before. -/
theorem candidates_like_scan (keys : JoinKeys) (arrivals : List Arrival) (side : Side)
    (probe : Solution) :
    let store := keys.insertAll OrderedMap.empty arrivals
    let candidates := keys.candidates store side probe
    let scanned := scanSide store side.opposite
    scanned = keys.arrivedOn store side.opposite ∧
      candidates.filterMap (Solution.pair side probe) =
        scanned.filterMap (Solution.pair side probe) ∧
      (∀ stored, Solution.Compatible probe stored →
        candidates.count stored = scanned.count stored) ∧
      ∀ joinType : JoinType,
        joinType.onArrival side probe candidates = joinType.onArrival side probe scanned := by
  intro store candidates scanned
  have keyed : keys.Keyed store := (keys.remembers_empty).keyed.insertAll arrivals
  have all : scanned = keys.arrivedOn store side.opposite := keyed.scanSide_eq side.opposite
  have joined : candidates.filterMap (Solution.pair side probe) =
      scanned.filterMap (Solution.pair side probe) := by
    rw [all]
    exact filterMap_candidates keyed side probe fun _ => Solution.pair_eq_none
  refine ⟨all, joined, fun stored compatible => ?_, fun joinType => ?_⟩
  · rw [all]
    exact keyed.count_candidates side compatible
  · rw [JoinType.onArrival_eq_news, JoinType.onArrival_eq_news]
    exact JoinType.news_congr joined

/-- Binds all join names, to a value with a separator in it. -/
def probingValue : Solution := ⟨.ofList [("a", .iri "x\x1f"), ("b", .iri "y")], "w"⟩

def partialValue : Solution := ⟨.ofList [("b", .iri "y")], "\x1f"⟩

theorem candidates_like_scan_probingValue :
    let keys : JoinKeys := ⟨["a"], ["a", "b"]⟩
    let other : Solution := ⟨.ofList [("a", .iri "x")], "v"⟩
    let store := keys.insertAll OrderedMap.empty
      [(.right, partialValue), (.right, probingValue), (.right, other), (.right, partialValue)]
    Solution.Compatible probingValue partialValue ∧
      (keys.candidates store .left probingValue).count partialValue =
        (scanSide store .right).count partialValue ∧
      keys.candidates store .left probingValue = [probingValue, partialValue] ∧
      scanSide store .right = [probingValue, other, partialValue] := by
  intro keys other store
  have compatible : Solution.Compatible probingValue partialValue :=
    Solution.isSome_join_iff.mp (by decide)
  obtain ⟨-, -, counts, -⟩ := candidates_like_scan keys
    [(.right, partialValue), (.right, probingValue), (.right, other), (.right, partialValue)]
    .left probingValue
  exact ⟨compatible, counts partialValue compatible, by decide, by decide⟩

end JoinKeys

end ContinuousQuery
