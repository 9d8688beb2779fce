import Subtensor.Consensus.Vector
import Subtensor.Lib.SparseMatrix

/-!
# Sparse matrices of an epoch

The functions on sparse matrices that `epoch` uses (`epoch/math.rs`), without the
prefix `inplace_` of their names. The functions that index a vector by a column
fail if it is out of range.
-/

namespace Subtensor

open Lib

/-! ## Masks -/

def maskRowsSparse (mask : List Bool) (matrix : SparseMatrix I32F32) :
    Option (SparseMatrix I32F32) :=
  if matrix.length = mask.length then
    some (List.zipWith (fun m row => if m then [] else row) mask matrix)
  else none

def maskDiagSparse (matrix : SparseMatrix I32F32) : SparseMatrix I32F32 :=
  matrix.mapIdx fun i row => row.filter fun e => i ≠ e.1

def maskDiagSparseExceptIndex (matrix : SparseMatrix I32F32) (exceptIndex : ℕ) :
    SparseMatrix I32F32 :=
  matrix.mapIdx fun i row => row.filter fun e =>
    i ≠ e.1 ∨ (i = exceptIndex ∧ e.1 = exceptIndex)

def vecMaskSparseMatrix (matrix : SparseMatrix I32F32) (first second : List U64)
    (maskFn : U64 → U64 → Bool) : Option (SparseMatrix I32F32) :=
  matrix.collect fun i j value =>
    (first[i]?).bind fun a => (second[j]?).map fun b => if maskFn a b then none else some value

def scalarVecMaskSparseMatrix (matrix : SparseMatrix I32F32) (scalar : U64) (vector : List U64)
    (maskFn : U64 → U64 → Bool) : Option (SparseMatrix I32F32) :=
  matrix.collect fun _ j value =>
    (vector[j]?).map fun b => if maskFn scalar b then none else some value

/-! ## Rows and columns -/

def rowNormalizeSparse (matrix : SparseMatrix I32F32) : SparseMatrix I32F32 :=
  matrix.map fun row =>
    let rowSum := sumFixed (row.map (·.2))
    if 0 < rowSum.bits then row.map fun e => (e.1, e.2.safeDiv rowSum) else row

def rowSumSparse (matrix : SparseMatrix I32F32) : List I32F32 :=
  matrix.map fun row => sumFixed (row.map (·.2))

def colNormalizeSparse (matrix : SparseMatrix I32F32) (columns : ℕ) :
    Option (SparseMatrix I32F32) :=
  match matrix.scatter (fun _ value => some fun acc => acc.satAdd value)
      (List.replicate columns 0) with
  | none => none
  | some colSum => matrix.collect fun _ j value =>
      (colSum[j]?).map fun total => some (if total.bits = 0 then value else value.safeDiv total)

def colMaxUpscaleSparse (matrix : SparseMatrix I32F32) (columns : ℕ) :
    Option (SparseMatrix I32F32) :=
  match matrix.scatter (fun _ value => some fun acc => if acc.bits < value.bits then value else acc)
      (List.replicate columns 0) with
  | none => none
  | some colMax => matrix.collect fun _ j value =>
      (colMax[j]?).map fun m => some (if m.bits = 0 then value else value.safeDiv m)

def colClipSparse (matrix : SparseMatrix I32F32) (colThreshold : List I32F32) :
    Option (SparseMatrix I32F32) :=
  matrix.collect fun _ j value => (colThreshold[j]?).map fun threshold =>
    if threshold.bits < value.bits then
      if 0 < threshold.bits then some threshold else none
    else some value

/-! ## Products -/

def rowHadamardSparse (matrix : SparseMatrix I32F32) (vector : List I32F32) :
    SparseMatrix I32F32 :=
  List.zipWith (fun row factor => row.map fun e => (e.1, e.2.satMul factor)) matrix vector

def matmulSparse (matrix : SparseMatrix I32F32) (vector : List I32F32) (columns : ℕ) :
    Option (List I32F32) :=
  matrix.scatter (fun i value => (vector[i]?).map fun v acc => acc.satAdd (v.satMul value))
    (List.replicate columns 0)

def matmulTransposeSparse (matrix : SparseMatrix I32F32) (vector : List I32F32) :
    Option (List I32F32) :=
  matrix.mapM fun row => row.foldlM
    (fun acc e => (vector[e.1]?).map fun v => acc.satAdd (v.satMul e.2)) 0

def matVecMulSparse (matrix : SparseMatrix I32F32) (vector : List I32F32) : SparseMatrix I32F32 :=
  matrix.mapEntries fun _ j value => (vector[j]?).bind fun v =>
    if (value.satMul v).bits ≠ 0 then some (value.satMul v) else none

def interpolateSparse (mat1 mat2 : SparseMatrix I32F32) (columns : ℕ) (ratio : I32F32) :
    Option (SparseMatrix I32F32) :=
  if ratio = 0 then some mat1
  else if ratio = .ofInt 1 then some mat2
  else if mat1.length = mat2.length then
    some (List.zipWith (fun row1 row2 =>
      let dense1 := row1.foldl (fun acc e => acc.set e.1 e.2) (List.replicate columns (0 : I32F32))
      let dense2 := row2.foldl (fun acc e => acc.set e.1 e.2) (List.replicate columns (0 : I32F32))
      (List.range columns).filterMap fun j =>
        let v1 : I32F32 := (dense1[j]?).getD 0
        let v2 : I32F32 := (dense2[j]?).getD 0
        let interp := v1.satAdd (ratio.satMul (v2.satSub v1))
        if 0 < interp.bits then some (j, interp) else none) mat1 mat2)
  else none

/-! ## The weighted median of the columns -/

/-- The scores of the columns, over the rows with a stake. -/
def columnScores (stake : List I32F32) (score : SparseMatrix I32F32) (columns : ℕ) :
    Option (List (List I32F32)) :=
  let rows := stake.zipIdx.filter fun p => 0 < p.1.bits
  rows.zipIdx.foldlM (fun useScore p => (score[p.1.2]?).bind fun row =>
      SparseRow.scatter (fun value =>
        if p.2 < rows.length then some fun column => column.set p.2 value else none) useScore row)
    (List.replicate columns (List.replicate rows.length 0))

def weightedMedianColSparse (stake : List I32F32) (score : SparseMatrix I32F32) (columns : ℕ)
    (majority : I32F32) : Option (List I32F32) :=
  let useStake := normalize (stake.filter fun s => 0 < s.bits)
  let stakeSum := sumFixed useStake
  match columnScores stake score columns with
  | none => none
  | some useScore => useScore.mapM fun column =>
      weightedMedian useStake column (List.range useStake.length) (stakeSum.satSub majority) 0
        stakeSum

/-! ## Moving averages -/

/-- The entries of a dense row that are pushed. -/
def positiveEntries (row : List I32F32) : SparseRow I32F32 :=
  row.zipIdx.filterMap fun p => if 0 < p.1.bits then some (p.2, p.1) else none

def matEmaSparse (new old : SparseMatrix I32F32) (alpha : I32F32) : Option (SparseMatrix I32F32) :=
  let oneMinusAlpha := (IFixed.ofInt 1 : I32F32).satSub alpha
  if new.length = old.length then
    (new.zip old).mapM fun rows =>
      ((SparseRow.scatter (fun value => some fun acc => acc.satAdd (alpha.satMul value))
        (List.replicate new.length 0) rows.1).bind fun row =>
      SparseRow.scatter (fun value => some fun acc => acc.satAdd (oneMinusAlpha.satMul value))
        row rows.2).map positiveEntries
  else none

/-- What is left of the old row. -/
def decayedRow (oldRow : SparseRow I32F32) (alphaRow : List I32F32) : List I32F32 :=
  oldRow.foldl (fun decayed e => (alphaRow[e.1]?).elim decayed fun alpha =>
      decayed.set e.1 (((IFixed.ofInt 1 : I32F32).satSub alpha).satMul e.2))
    (List.replicate alphaRow.length (0 : I32F32))

/-- One row of `mat_ema_alpha_sparse`: only the columns of the new row are
kept. -/
def emaAlphaRowSparse (newRow oldRow : SparseRow I32F32) (alphaRow : List I32F32) :
    SparseRow I32F32 :=
  let decayed := decayedRow oldRow alphaRow
  SparseRow.mapEntries (fun j value => (alphaRow[j]?).bind fun alpha => (decayed[j]?).bind fun d =>
    let result := (d.satAdd ((alpha.satMul value).greatest 0)).least (.ofInt 1)
    if 0 < result.bits then some result else none) newRow

def matEmaAlphaSparse (new old : SparseMatrix I32F32) (alpha : List (List I32F32)) :
    Option (SparseMatrix I32F32) :=
  if new.length = old.length ∧ new.length = alpha.length then
    some (List.zipWith (fun rows alphaRow => emaAlphaRowSparse rows.1 rows.2 alphaRow)
      (new.zip old) alpha)
  else none

end Subtensor
