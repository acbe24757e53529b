/-
**Return codes** (`include/yarf/err.h`).

A function of the source that returns `int` is modelled with a result `Except Err α`: `kOk` is
`Except.ok`, every negative code is an `Err`.
-/

import Mathlib.Data.Int.Notation

namespace Yarf

/-- The error codes the modelled functions return. -/
inductive Err
  /-- Bad argument. -/
  | kArg
  | kInternal
  /-- Returned in place of an assertion. -/
  | kUnexpect
  | kSpaceLimit
  | kShmGet
  | kShmNotExist
  | kShmAttach
  | kShmStat
  | kChanHeadInvalid
  | kChanFull
  | kChanEmpty
  /-- The caller's receive buffer is too short. -/
  | kChanRecvSpaceLimit
  | kChanDstNotExist
  /-- A pack head inside the channel is not valid (fatal). -/
  | kChanPackInvalid
  | kChanCfgSize
  | kChanCfgInvalid
  | kChanCfgDuplicateChan
  /-- The configuration is full. -/
  | kCfgMaxChan
  deriving DecidableEq, Repr

/-- The number a code stands for. -/
def Err.code : Err → ℤ
  | .kArg => -1
  | .kInternal => -2
  | .kUnexpect => -3
  | .kSpaceLimit => -4
  | .kShmGet => -500
  | .kShmNotExist => -501
  | .kShmAttach => -502
  | .kShmStat => -504
  | .kChanHeadInvalid => -1001
  | .kChanFull => -1010
  | .kChanEmpty => -1011
  | .kChanRecvSpaceLimit => -1012
  | .kChanDstNotExist => -1013
  | .kChanPackInvalid => -1020
  | .kChanCfgSize => -1030
  | .kChanCfgInvalid => -1031
  | .kChanCfgDuplicateChan => -1032
  | .kCfgMaxChan => -1033

/-- Callers test `ret < 0`: every error code is negative. -/
theorem Err.code_neg (err : Err) : err.code < 0 := by
  cases err <;> decide

end Yarf
