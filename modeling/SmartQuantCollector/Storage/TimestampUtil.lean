/-! # Trade dates (`src/storage/timestamp_util.h`) -/

namespace Sqc

def kUsecsPerDay : UInt64 := 86400000000

def kMaxValidUsec : UInt64 := 4102444800000000

def kMinValidDate : Int := 10957

def kPartitionYearBack : Int := 1

def kPartitionYearForward : Int := 5

def kMonthDays : List Int := [0, 31, 59, 90, 120, 151, 181, 212, 243, 273, 304, 334, 365]

/-- Days since 1970-01-01. The divisions truncate. -/
def utcDaysFromEpoch (year month day : Int) : Int :=
  let y := year - 1
  let days := y * 365 + y.tdiv 4 - y.tdiv 100 + y.tdiv 400 - 719162
  let leap := year.tmod 4 = 0 ∧ (year.tmod 100 ≠ 0 ∨ year.tmod 400 = 0)
  days + (kMonthDays.getD (month - 1).toNat 0 + (day - 1) + if leap ∧ month > 2 then 1 else 0)

/-- Days since 1970-01-01, or `-1` for the zero and overflow sentinels. -/
def usecToDateInt (usec : UInt64) : Int :=
  if usec = 0 ∨ usec > kMaxValidUsec then -1 else (usec / kUsecsPerDay).toNat

/-- The test against the cached last date of the partitions. -/
def isValidTradeDate (maxValidDate tradeDate : Int) : Bool :=
  0 ≤ tradeDate && kMinValidDate ≤ tradeDate && tradeDate ≤ maxValidDate

def isValidExchangeTimestamp (maxValidDate : Int) (usec : UInt64) : Bool :=
  isValidTradeDate maxValidDate (usecToDateInt usec)

end Sqc
