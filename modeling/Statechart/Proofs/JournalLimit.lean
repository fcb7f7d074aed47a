import Mathlib.Data.List.DropRight
import Statechart.Wire.Journal

/-! The limit of a journal. A new move pushes the oldest ones out, so that the latest are left, as
many as the limit allows. Only a journal that was read with a limit of zero and moves all the same
is stuck: it takes no move and drops none. -/
namespace Statechart.Journal

/-- The last of some moves, as many as a limit allows. -/
def latest (limit : Option UInt64) (moves : List Move) : List Move :=
  match limit with
  | none => moves
  | some limit => moves.rtake limit.toNat

/-- Its limit is zero, and yet it holds moves. -/
def Stuck (j : Journal) : Prop := j.limit = some 0 ∧ j.moves ≠ []

variable {j : Journal}

theorem toNat_pos {limit : UInt64} (h : limit ≠ 0) : 0 < limit.toNat := by
  have hne : limit.toNat ≠ 0 := fun h' => h (UInt64.toNat_inj.mp h')
  omega

theorem length_latest (limit : UInt64) (moves : List Move) :
    (latest (some limit) moves).length = min limit.toNat moves.length := by
  rw [latest, List.rtake, List.length_drop]
  omega

theorem latest_concat (limit : Option UInt64) (moves : List Move) (m : Move) :
    latest limit (latest limit moves ++ [m]) = latest limit (moves ++ [m]) := by
  cases limit with
  | none => rfl
  | some limit =>
    cases hlimit : limit.toNat with
    | zero => simp [latest, hlimit]
    | succ k =>
      simp only [latest, hlimit, List.rtake_concat_succ]
      rw [List.rtake, List.rtake, List.rtake, List.length_drop, List.drop_drop]
      congr 2
      omega

theorem push_of_stuck (h : j.Stuck) (m : Move) : j.push m = j := by
  rw [push, h.1]
  rfl

theorem moves_push (h : ¬j.Stuck) (m : Move) :
    (j.push m).moves = latest j.limit (j.moves ++ [m]) := by
  unfold push
  cases hlimit : j.limit with
  | none => rfl
  | some limit =>
    dsimp only
    by_cases hzero : limit = 0
    · -- nothing is kept of nothing
      have hempty : j.moves = [] := by_contra fun hne => h ⟨hzero ▸ hlimit, hne⟩
      rw [if_pos hzero, hempty, hzero]
      rfl
    · have hpos := toNat_pos hzero
      rw [if_neg hzero]
      dsimp only [latest]
      rw [List.rtake, List.length_append, List.length_singleton,
        List.drop_append_of_le_length (by omega)]

/-- A journal that holds the latest of some moves holds the latest of them and one more once that is
added. -/
theorem push_recent {limit : UInt64} {all : List Move} (hlimit : j.limit = some limit)
    (hmoves : j.moves = latest (some limit) all) (m : Move) :
    (j.push m).moves = latest (some limit) (all ++ [m]) := by
  have hstuck : ¬j.Stuck := by
    rintro ⟨hzero, hne⟩
    obtain rfl := Option.some.inj (hlimit.symm.trans hzero)
    have hlength := length_latest 0 all
    rw [← hmoves] at hlength
    exact hne (List.eq_nil_of_length_eq_zero (by simpa using hlength))
  rw [moves_push hstuck, hlimit, hmoves, latest_concat]

theorem limit_foldl_push (j : Journal) (ms : List Move) : (ms.foldl push j).limit = j.limit := by
  induction ms generalizing j with
  | nil => rfl
  | cons m rest ih => rw [List.foldl_cons, ih, push_limit]

theorem moves_bounded (limit : UInt64) (ms : List Move) :
    (ms.foldl push (bounded limit)).moves = latest (some limit) ms := by
  induction ms using List.reverseRecOn with
  | nil => exact List.drop_nil.symm
  | append_singleton ms m ih =>
    rw [List.foldl_concat]
    exact push_recent (limit_foldl_push (bounded limit) ms) ih m

theorem moves_unbounded (ms : List Move) : (ms.foldl push unbounded).moves = ms := by
  induction ms using List.reverseRecOn with
  | nil => rfl
  | append_singleton ms m ih =>
    have hlimit : (ms.foldl push unbounded).limit = none := limit_foldl_push unbounded ms
    have hstuck : ¬(ms.foldl push unbounded).Stuck := fun h => by simp [Stuck, hlimit] at h
    rw [List.foldl_concat, moves_push hstuck, hlimit, ih]
    rfl

/-- A push leaves the limit alone and keeps the latest moves, as many as that allows, unless the
journal is stuck. A stuck journal stays as it is, and no journal gets stuck by being pushed to. -/
theorem push_latest_iff (j : Journal) (m : Move) :
    (j.push m).limit = j.limit ∧
      ((j.push m).moves = latest j.limit (j.moves ++ [m]) ↔ ¬j.Stuck) ∧
      ((∀ limit ∈ j.limit, (j.push m).size ≤ limit.toNat) ↔ ¬j.Stuck) ∧
      (j.Stuck → j.push m = j) ∧
      ∀ ms : List Move, (ms.foldl push unbounded).moves = ms ∧
        ∀ limit, (ms.foldl push (bounded limit)).moves = latest (some limit) ms := by
  refine ⟨push_limit j m, ⟨fun hmoves hstuck => ?_, fun hstuck => moves_push hstuck m⟩,
    ⟨fun hsize hstuck => ?_, fun hstuck limit hlimit => ?_⟩, fun hstuck => push_of_stuck hstuck m,
    fun ms => ⟨moves_unbounded ms, fun limit => moves_bounded limit ms⟩⟩
  · rw [push_of_stuck hstuck, hstuck.1] at hmoves
    have hlength := length_latest 0 (j.moves ++ [m])
    rw [← hmoves] at hlength
    exact hstuck.2 (List.eq_nil_of_length_eq_zero (by simpa using hlength))
  · have hzero := hsize 0 hstuck.1
    rw [push_of_stuck hstuck, size] at hzero
    exact hstuck.2 (List.eq_nil_of_length_eq_zero (Nat.le_zero.mp hzero))
  · rw [size, moves_push hstuck, hlimit, length_latest]
    exact Nat.min_le_left _ _

/-- A journal with one move and a limit of zero. -/
def hoardText : Json :=
  .obj [("limit", .int 0), ("records", .arr [
    .obj [("event", .text "FIRST"), ("from", .obj [("leaves", .arr [.text "a"])]),
      ("timestamp", .text "2023-11-14T22:13:20Z"), ("to", .obj [("leaves", .arr [.text "b"])])]])]

def hoard : Journal where
  moves := [{
    source := .ofLeaves [⟨"a"⟩]
    target := .ofLeaves [⟨"b"⟩]
    trigger := "FIRST"
    time := ⟨⟨2023, 11, 14, by decide⟩, 22, 13, 20, 0, by decide⟩ }]
  limit := some 0

theorem hoard_outgrows_limit : decode hoardText = some hoard ∧
    ∃ m, (hoard.push m).moves ≠ latest hoard.limit (hoard.moves ++ [m]) ∧
      hoard.limit = some 0 ∧ (hoard.push m).size = 1 := by
  refine ⟨by decide +kernel, ⟨.ofLeaves [⟨"b"⟩], .ofLeaves [⟨"c"⟩], "SECOND", .epoch⟩, ?_⟩
  decide +kernel

end Statechart.Journal
