import Reldex.SessionController

/-! The rows of the grid. A batch is cut where it meets the row limit; the grid remembers that,
but does not look at it when the next batch comes. -/
namespace Reldex.Ui
open List Nat

/-- The grid and the rows behind the handle of each of its batches; and a record: the rows of all
batches since the result began. -/
structure Grid (ρ : Type) where
  model : ResultTableModel
  handles : List (List ρ)
  stream : List ρ

inductive GridCall (ρ : Type) where
  | beginResult (columns : List ColumnDescription)
  | applyBatch (rows : List ρ)
  | setMaxRows (rows : Int)

namespace Grid
variable {ρ : Type} {g : Grid ρ}

def start (maxRows : Nat) : Grid ρ := ⟨⟨[],[],0,false,maxRows⟩,[],[]⟩

def perform (g : Grid ρ) : GridCall ρ → Grid ρ
  | .beginResult columns => ⟨g.model.beginResult columns,[],[]⟩
  | .applyBatch rows =>
    let model := g.model.applyBatch (some ⟨0,rows.length⟩) rows.length
    ⟨model,if model.batches.length = g.model.batches.length then g.handles else g.handles ++ [rows],g.stream ++ rows⟩
  | .setMaxRows rows => { g with model := g.model.setMaxRows rows }

/-- The row that `data` reads: in the batch that `batchForRow` finds, as far below its first row. -/
def row (g : Grid ρ) (i : Nat) : Option ρ :=
  (g.model.batches.zip g.handles).findSome? fun e =>
    if e.1.firstRow ≤ i ∧ i < e.1.firstRow + e.1.rows then e.2[i - e.1.firstRow]? else none

/-- The grid shows what came first, and all of it until a batch was cut. -/
structure Whole (g : Grid ρ) : Prop where
  held : g.model.batches.length = g.handles.length
  rows : ∀ i, g.row i = (g.stream.take g.model.rowCount)[i]?
  count : g.model.rowCount ≤ g.stream.length
  full : g.model.rowLimitReached = false → g.model.rowCount = g.stream.length

/-- A call, with nothing taken from a batch that comes after a cut. -/
def Step (g next : Grid ρ) : Prop :=
  ∃ call, next = g.perform call ∧ ∀ rows, call = .applyBatch rows → rows ≠ [] →
    g.model.rowLimitReached = true → g.model.maxRows ≤ g.model.rowCount

theorem Whole.insert (whole : Whole g) (all : g.model.rowCount = g.stream.length) (rows : List ρ)
    (batch : Batch) (reached : Bool) (fits : taken ≤ rows.length)
    (cut : reached = false → taken = rows.length) :
    Whole ⟨{ g.model with rowLimitReached := reached }.insertRows batch taken,g.handles ++ [rows],g.stream ++ rows⟩ where
  held := by simp [ResultTableModel.insertRows,whole.held]
  rows i := by
    have before : (g.model.batches.zip g.handles).findSome? _ = _ := whole.rows i
    simp only [row,ResultTableModel.insertRows,zip_append whole.held,findSome?_append,before,all,
      take_length,take_length_add_append]
    by_cases old : i < g.stream.length
    · simp [old,getElem?_append_left old]
    · have here : g.stream.length ≤ i := Nat.le_of_not_lt old
      have under : i < g.stream.length + taken ↔ i - g.stream.length < taken := by omega
      simp [getElem?_append_right here,getElem?_take,here,under]
  count := by simp [ResultTableModel.insertRows,all,fits]
  full complete := by simp [ResultTableModel.insertRows,all,cut complete]

theorem Whole.step {next : Grid ρ} (whole : Whole g) (step : Step g next) : Whole next := by
  obtain ⟨call,rfl,final⟩ := step
  cases call with
  | beginResult columns => exact ⟨rfl,by simp [row,perform,ResultTableModel.beginResult],zero_le _,fun _ => rfl⟩
  | setMaxRows rows => exact { whole with }
  | applyBatch rows =>
    rcases Nat.eq_zero_or_pos rows.length with none | some
    · simpa [perform,ResultTableModel.applyBatch,length_eq_zero_iff.1 none] using whole
    have room : g.model.rowCount < g.model.maxRows → g.model.rowCount = g.stream.length := fun room =>
      whole.full (by
        by_contra reached
        exact absurd (final rows rfl (List.ne_nil_of_length_pos some) (by simpa using reached)) (Nat.not_le_of_lt room))
    by_cases short : g.model.maxRows - g.model.rowCount < rows.length
    · by_cases gone : g.model.maxRows - g.model.rowCount = 0
      · simp only [perform,ResultTableModel.applyBatch,some,some.ne',gone,if_true,if_false]
        refine ⟨whole.held,fun i => ?_,whole.count.trans (by simp),by rintro ⟨⟩⟩
        rw [take_append_of_le_length whole.count]
        exact whole.rows i
      · have kept := whole.insert (room (by omega)) rows ⟨0,rows.length⟩ true short.le (by rintro ⟨⟩)
        simpa [perform,ResultTableModel.applyBatch,some.ne',short,gone,ResultTableModel.insertRows] using kept
    · have kept := whole.insert (room (by omega)) rows ⟨0,rows.length⟩ g.model.rowLimitReached le_rfl fun _ => rfl
      simpa [perform,ResultTableModel.applyBatch,some.ne',short,ResultTableModel.insertRows] using kept

theorem rowCount_applied (g : Grid ρ) (call : GridCall ρ) :
    (g.perform call).model.rowCount ≤ max g.model.rowCount g.model.maxRows := by
  cases call with
  | beginResult columns => exact zero_le _
  | setMaxRows rows => exact le_max_left _ _
  | applyBatch rows =>
    simp only [perform,ResultTableModel.applyBatch,ResultTableModel.insertRows,apply_ite ResultTableModel.rowCount]
    split_ifs <;> omega

/-- After any calls, none of which brings rows behind a cut after the limit was raised, the grid
shows the first `rowCount` rows of the result, and no call ever takes it above the limit it finds. -/
theorem rows_prefix_of_result (run : Relation.ReflTransGen Step (start maxRows) g) :
    (∀ i, g.row i = (g.stream.take g.model.rowCount)[i]?) ∧ g.model.rowCount ≤ g.stream.length ∧
      ∀ call, (g.perform call).model.rowCount ≤ max g.model.rowCount g.model.maxRows := by
  have whole : Whole g := by
    induction run with
    | refl => exact ⟨rfl,by simp [row,start],zero_le _,fun _ => rfl⟩
    | tail _ step ih => exact ih.step step
  exact ⟨whole.rows,whole.count,rowCount_applied g⟩

theorem rows_prefix_of_a_cut_result : ((start 1 : Grid Nat).perform (.applyBatch [1,2])).row 0 = some 1 := by
  have step : Step (start 1) ((start 1 : Grid Nat).perform (.applyBatch [1,2])) := ⟨_,rfl,by rintro _ - - ⟨⟩⟩
  exact (rows_prefix_of_result (.single step)).1 0

/-- The second row falls to the limit, the third comes after the limit was raised. -/
theorem a_raised_limit_leaves_a_gap :
    let g := [.applyBatch [1,2],.setMaxRows 10,.applyBatch [3]].foldl perform (start 1 : Grid Nat)
    g.stream = [1,2,3] ∧ g.model.rowCount = 2 ∧ g.row 0 = some 1 ∧ g.row 1 = some 3 := by decide

end Grid
end Reldex.Ui
