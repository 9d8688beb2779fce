import Subtensor.Consensus.Vector

/-!
# Dense matrices of an epoch

The functions on dense matrices that `epoch_dense` uses (`epoch/math.rs`), without
the prefix `inplace_` of their names. Many of them leave a matrix alone whose
first row is empty.
-/

namespace Subtensor

open Lib

/-- `Vec<Vec<I32F32>>`. -/
abbrev DenseMatrix := List (List I32F32)

/-- There is no first row, or it is empty. -/
def DenseMatrix.hasNoColumns {α : Type} (matrix : List (List α)) : Bool :=
  (matrix.head?.getD []).isEmpty

open DenseMatrix (hasNoColumns)

/-! ## Masks -/

/-- What is masked in a row becomes zero. -/
def maskRow (mask : List Bool) (row : List I32F32) : List I32F32 :=
  row.mapIdx fun j value => if (mask[j]?).getD false then 0 else value

def maskMatrix (mask : List (List Bool)) (matrix : DenseMatrix) : Option DenseMatrix :=
  if hasNoColumns mask then some matrix
  else if mask.length = matrix.length then
    some (List.zipWith maskRow mask matrix)
  else none

def maskRows (mask : List Bool) (matrix : DenseMatrix) : Option DenseMatrix :=
  match matrix with
  | [] => some []
  | firstRow :: _ =>
      if mask.length = matrix.length then
        some (List.zipWith (fun m row => if m then List.replicate firstRow.length 0 else row) mask
          matrix)
      else none

def maskCols (mask : List Bool) (matrix : DenseMatrix) : Option DenseMatrix :=
  match matrix with
  | [] => some []
  | firstRow :: _ =>
      if mask.length = firstRow.length then
        some (matrix.map (maskRow mask))
      else none

def maskDiag (matrix : DenseMatrix) : Option DenseMatrix :=
  if hasNoColumns matrix then some matrix
  else if matrix.length = (matrix.head?.getD []).length then
    some (matrix.mapIdx fun i row => row.set i 0)
  else none

/-- `inplace_mask_diag_except_index`: the diagonal is masked, and one entry of it
is put back. -/
def maskDiagExceptIndex (matrix : DenseMatrix) (exceptIndex : ℕ) : Option DenseMatrix :=
  if hasNoColumns matrix then some matrix
  else if matrix.length = (matrix.head?.getD []).length then
    (maskDiag matrix).map fun masked =>
      match (matrix[exceptIndex]?).bind (·[exceptIndex]?) with
      | none => masked
      | some diagAtIndex => masked.modify exceptIndex fun row => row.set exceptIndex diagAtIndex
  else none

/-! ## Rows and columns -/

def rowNormalize (matrix : DenseMatrix) : DenseMatrix :=
  matrix.map fun row =>
    if 0 < (sumFixed row).bits then row.map fun value => value.safeDiv (sumFixed row) else row

def rowSum (matrix : DenseMatrix) : List I32F32 :=
  if ¬matrix.isEmpty ∧ hasNoColumns matrix then [] else matrix.map sumFixed

/-- The loops of `inplace_col_normalize` and `inplace_col_max_upscale`: a value
for every column, and the entries divided by it. -/
def divideCols (accumulate : I32F32 → I32F32 → I32F32) (matrix : DenseMatrix) : DenseMatrix :=
  if hasNoColumns matrix then matrix
  else
    let cols := matrix.foldl (fun acc row => List.zipWith accumulate row acc)
      (List.replicate (matrix.head?.getD []).length 0)
    matrix.map fun row => row.mapIdx fun j value => match cols[j]? with
      | none => value
      | some col => if col.bits = 0 then value else value.safeDiv col

def colNormalize (matrix : DenseMatrix) : DenseMatrix :=
  divideCols (fun value acc => acc.satAdd value) matrix

def colMaxUpscale (matrix : DenseMatrix) : DenseMatrix :=
  divideCols (fun value acc => acc.greatest value) matrix

def colClip (matrix : DenseMatrix) (colThreshold : List I32F32) : DenseMatrix :=
  matrix.map fun row => row.mapIdx fun j value => match colThreshold[j]? with
    | none => value
    | some threshold => threshold.least value

/-! ## Products -/

def rowHadamard (matrix : DenseMatrix) (vector : List I32F32) : DenseMatrix :=
  if hasNoColumns matrix then [[]]
  else List.zipWith (fun row v => row.map fun value => v.satMul value) matrix vector

def matmul (matrix : DenseMatrix) (vector : List I32F32) : Option (List I32F32) :=
  if hasNoColumns matrix then some []
  else if matrix.length = vector.length then
    some ((matrix.zip vector).foldl (fun acc p =>
        List.zipWith (fun value acc => acc.satAdd (p.2.satMul value)) p.1 acc)
      (List.replicate (matrix.head?.getD []).length 0))
  else none

def matmulTranspose (matrix : DenseMatrix) (vector : List I32F32) : Option (List I32F32) :=
  if hasNoColumns matrix then some []
  else if (matrix.head?.getD []).length = vector.length then
    some (matrix.map fun row =>
      (row.zip vector).foldl (fun acc p => acc.satAdd (p.1.satMul p.2)) 0)
  else none

def matVecMul (matrix : DenseMatrix) (vector : List I32F32) : DenseMatrix :=
  if hasNoColumns matrix then [[]] else matrix.map fun row => vecMul row vector

def interpolate (mat1 mat2 : DenseMatrix) (ratio : I32F32) : Option DenseMatrix :=
  if ratio = 0 then some mat1
  else if ratio = .ofInt 1 then some mat2
  else if mat1.length ≠ mat2.length then none
  else if hasNoColumns mat1 then some [[]]
  else (mat1.zip mat2).mapM fun rows =>
    if rows.1.length = rows.2.length then
      some ((List.range (mat1.head?.getD []).length).map fun j =>
        match rows.1[j]?, rows.2[j]? with
        | some v1, some v2 => v1.satAdd (ratio.satMul (v2.satSub v1))
        | _, _ => 0)
    else none

/-! ## The weighted median of the columns -/

/-- `weighted_median_col`. The first row is read even when there is none. -/
def weightedMedianCol (stake : List I32F32) (score : DenseMatrix) (majority : I32F32) :
    Option (List I32F32) :=
  match score with
  | [] => none
  | firstRow :: _ => (List.range firstRow.length).mapM fun c =>
      (stake.zipIdx.mapM fun p => (score[p.2]?).bind fun row =>
          if firstRow.length = row.length then
            if 0 < p.1.bits then (row[c]?).map fun value => some (p.1, value) else some none
          else none).bind fun used =>
        let used := used.reduceOption
        if used.isEmpty then some 0
        else
          let useStake := normalize (used.map (·.1))
          let stakeSum := sumFixed useStake
          weightedMedian useStake (used.map (·.2)) (List.range useStake.length)
            (stakeSum.satSub majority) 0 stakeSum

/-! ## Moving averages -/

def matEma (new old : DenseMatrix) (alpha : I32F32) : DenseMatrix :=
  let oneMinusAlpha := (IFixed.ofInt 1 : I32F32).satSub alpha
  if hasNoColumns new then [[]]
  else List.zipWith (List.zipWith fun newElem oldElem =>
    (alpha.satMul newElem).satAdd (oneMinusAlpha.satMul oldElem)) new old

def emaAlphaRow (newRow oldRow alphaRow : List I32F32) : Option (List I32F32) :=
  if newRow.length = oldRow.length ∧ newRow.length = alphaRow.length then
    some (List.zipWith (fun elems alpha =>
        (((IFixed.ofInt 1 : I32F32).satSub alpha).satMul elems.2).satAdd
          ((alpha.satMul elems.1).greatest 0) |>.least (.ofInt 1))
      (newRow.zip oldRow) alphaRow)
  else none

def matEmaAlpha (new old alpha : DenseMatrix) : Option DenseMatrix :=
  if hasNoColumns new then some [[]]
  else if new.length = old.length ∧ new.length = alpha.length then
    ((new.zip old).zip alpha).mapM fun rows => emaAlphaRow rows.1.1 rows.1.2 rows.2
  else none

end Subtensor
