import ZoweCommon.Time.UnixTimestamp
import Mathlib.Data.BitVec
import Mathlib.Tactic.Ring

/-! The packed decimal timestamps of the clock, outside z/OS: microseconds since 1900 above twelve
bits that are lost. -/
namespace ZoweCommon
namespace TimeUtils
open Calendar (Date IsLeap yearLength daysBeforeYear daysBeforeMonth)

structure Tm where
  tm_sec : ℤ
  tm_min : ℤ
  tm_hour : ℤ
  tm_mday : ℤ
  tm_mon : ℤ
  tm_year : ℤ
  tm_yday : ℤ
  tm_isdst : ℤ
  deriving DecidableEq

def gmtime_r (time : ℤ) : Tm :=
  let d := Date.ofNumber (Date.epoch.number + time / 86400).toNat
  let second := time % 86400
  { tm_sec := second % 60
    tm_min := second / 60 % 60
    tm_hour := second / 3600
    tm_mday := d.day
    tm_mon := d.month - 1
    tm_year := d.year - 1900
    tm_yday := d.dayOfYear
    tm_isdst := 0 }

/-- The time whose clock shows the fields in a zone some seconds east of UTC. Fields out of range
carry into the others, and all are set to what the clock shows. -/
def mktime (zone : ℤ) (split : Tm) : ℤ × Tm :=
  let months := split.tm_year * 12 + split.tm_mon
  let year := (1900 + months / 12).toNat
  let month := (months % 12).toNat + 1
  let days : ℤ := daysBeforeYear year + daysBeforeMonth year month + (split.tm_mday - 1) -
    Date.epoch.number
  let clock := ((days * 24 + split.tm_hour) * 60 + split.tm_min) * 60 + split.tm_sec
  (clock - zone, gmtime_r clock)

/-- The loop: two digits a turn. -/
def writePackedDecimalFrom (buffer : List Byte) (place placeValue : ℕ) (value : ℤ) : List Byte :=
  if 1 < placeValue then
    let high := value.tdiv placeValue
    let value := value - placeValue * high
    let low := value.tdiv (placeValue / 10 : ℕ)
    let value := value - (placeValue / 10 : ℕ) * low
    writePackedDecimalFrom (buffer.set place (BitVec.ofInt 8 (high * 16) ||| BitVec.ofInt 8 low))
      (place + 1) (placeValue / 10 / 10) value
  else buffer
termination_by placeValue
decreasing_by omega

def writePackedDecimal (buffer : List Byte) (place placeValue : ℕ) (value : ℤ) : List Byte :=
  writePackedDecimalFrom buffer place placeValue (value.tmod (placeValue * 10))

def extractFromPackedDecimalFrom (buffer : List Byte) (place placeValue : ℕ) (result : ℤ) : ℤ :=
  if 1 < placeValue then
    let byte := (buffer.getD place 0).toNat
    let high := byte / 16
    let low := byte % 16
    extractFromPackedDecimalFrom buffer (place + 1) (placeValue / 100)
      (result * 100 + high * 10 + low)
  else result
termination_by placeValue
decreasing_by omega

def extractFromPackedDecimal (buffer : List Byte) (place placeValue : ℕ) : ℤ :=
  extractFromPackedDecimalFrom buffer place placeValue 0

def secondsBetween360andUnixEpochs : BitVec 64 := 2208988800

/-- Seconds and microseconds. -/
structure Timeval where
  tv_sec : BitVec 64
  tv_usec : BitVec 64
  deriving DecidableEq

def stckToTimeval (stck : BitVec 64) : Timeval :=
  let microseconds := stck >>> 12
  let stckSeconds := microseconds / 1000000
  { tv_sec := stckSeconds - secondsBetween360andUnixEpochs
    tv_usec := microseconds % 1000000 }

def sleazyToSeconds (time : Tm) : BitVec 64 :=
  let result := BitVec.ofInt 64 time.tm_year
  let result := result * 365 + BitVec.ofInt 64 time.tm_yday
  let result := result * 24 + BitVec.ofInt 64 time.tm_hour
  let result := result * 60 + BitVec.ofInt 64 time.tm_min
  result * 60 + BitVec.ofInt 64 time.tm_sec

def timeZoneDifferenceInternal (base : ℤ) (localTm : Tm) : ℤ :=
  let utc := gmtime_r base
  let utcBase := sleazyToSeconds utc
  let localBase := sleazyToSeconds localTm
  if utcBase > localBase then -((utcBase - localBase).setWidth 32).toInt
  else ((BitVec.ofInt 64 (localBase.setWidth 32).toInt - utcBase).setWidth 32).toInt

def TIMESTAMP_LENGTH : ℕ := 16

/-- What is stored at `output`; 0 is returned. -/
def stckToTimestamp (stck : BitVec 64) : List Byte :=
  let timeval := stckToTimeval stck
  let split := gmtime_r timeval.tv_sec.toInt
  let output := List.replicate TIMESTAMP_LENGTH 0x00
  let output := writePackedDecimal output 0 10 split.tm_hour
  let output := writePackedDecimal output 1 10 split.tm_min
  let output := writePackedDecimal output 2 10 split.tm_sec
  let output := writePackedDecimal output 3 100000 (timeval.tv_usec.setWidth 32).toInt
  let output := writePackedDecimal output 8 1000 (split.tm_year + 1900)
  let output := writePackedDecimal output 10 10 (split.tm_mon + 1)
  writePackedDecimal output 11 10 split.tm_mday

/-- What is returned, and what `stck` is then. -/
def timestampToSTCK (zone : ℤ) (todText : List Byte) (stck offset : BitVec 64) : ℤ × BitVec 64 :=
  let year := extractFromPackedDecimal todText 8 1000
  if year < 1900 then (-1, stck)
  else
    let split : Tm :=
      { tm_hour := extractFromPackedDecimal todText 0 10
        tm_min := extractFromPackedDecimal todText 1 10
        tm_sec := extractFromPackedDecimal todText 2 10
        tm_year := year - 1900
        tm_mon := extractFromPackedDecimal todText 10 10 - 1
        tm_mday := extractFromPackedDecimal todText 11 10
        tm_yday := 0
        tm_isdst := -1 }
    let (localTime, split) := mktime zone split
    if -1 = localTime then (1, stck)
    else
      let adjustment := timeZoneDifferenceInternal localTime split
      let utcTime := localTime + adjustment
      let stckSeconds := BitVec.ofInt 64 (utcTime + secondsBetween360andUnixEpochs.toInt)
      let justMicroseconds := BitVec.ofInt 64 (extractFromPackedDecimal todText 3 100000)
      let microseconds := stckSeconds * 1000000 + justMicroseconds
      let rawStck := microseconds <<< 12
      (0, if offset.slt 0 then rawStck - -offset else rawStck + offset)

/-! Packed decimals -/

/-- The last pairs of digits of a number, a byte each. -/
def packed : ℕ → ℕ → List Byte
  | 0, _ => []
  | k + 1, v => BitVec.ofNat 8 (v / 100 ^ k / 10 * 16 + v / 100 ^ k % 10) :: packed k (v % 100 ^ k)

@[simp] theorem length_packed (k v : ℕ) : (packed k v).length = k := by
  induction k generalizing v with
  | zero => rfl
  | succ k ih => rw [packed, List.length_cons, ih]

theorem place_succ (k : ℕ) : 100 ^ (k + 1) / 10 = 100 ^ k * 10 := by
  rw [pow_succ]
  omega

theorem or_nibbles : ∀ high < 10, ∀ low < 10,
    BitVec.ofInt 8 ((high : ℕ) * 16) ||| BitVec.ofInt 8 (low : ℕ) =
      BitVec.ofNat 8 (high * 16 + low) := by
  decide

theorem writePackedDecimalFrom_eq (done old rest : List Byte) {k v place : ℕ}
    (hplace : done.length = place) (hold : old.length = k) (h : v < 100 ^ k) :
    writePackedDecimalFrom (done ++ old ++ rest) place (100 ^ k / 10) v =
      done ++ packed k v ++ rest := by
  induction k generalizing done old v place with
  | zero =>
    rw [writePackedDecimalFrom, if_neg (by decide), List.length_eq_zero_iff.mp hold]
    rfl
  | succ k ih =>
    obtain ⟨b, old, rfl⟩ := List.exists_cons_of_length_eq_add_one hold
    have hpos : 0 < 100 ^ k := Nat.pow_pos (by omega)
    have hten : 100 ^ k * 10 / 10 = 100 ^ k := by omega
    have hhigh : v / (100 ^ k * 10) = v / 100 ^ k / 10 := (Nat.div_div_eq_div_mul _ _ _).symm
    have hlow : v % (100 ^ k * 10) / 100 ^ k = v / 100 ^ k % 10 := Nat.mod_mul_right_div_self _ _ _
    have hrest : v % (100 ^ k * 10) % 100 ^ k = v % 100 ^ k := Nat.mod_mul_right_mod _ _ _
    have hdigits : v / 100 ^ k < 100 := by
      rw [pow_succ] at h
      exact Nat.div_lt_of_lt_mul (by omega)
    have hsub : (v : ℤ) - (100 ^ k * 10 : ℕ) * (v / (100 ^ k * 10) : ℕ) = (v % (100 ^ k * 10) : ℕ) := by
      have := Nat.div_add_mod v (100 ^ k * 10)
      omega
    have hsub' : ((v % (100 ^ k * 10) : ℕ) : ℤ) - (100 ^ k : ℕ) * (v / 100 ^ k % 10 : ℕ) =
        (v % 100 ^ k : ℕ) := by
      have hdiv := Nat.div_add_mod (v % (100 ^ k * 10)) (100 ^ k)
      rw [hlow, hrest] at hdiv
      omega
    rw [place_succ, writePackedDecimalFrom, if_pos (by omega), hten]
    dsimp only
    have hset : (done ++ b :: old ++ rest).set place (BitVec.ofNat 8
        (v / 100 ^ k / 10 * 16 + v / 100 ^ k % 10)) = done ++
          [BitVec.ofNat 8 (v / 100 ^ k / 10 * 16 + v / 100 ^ k % 10)] ++ old ++ rest := by
      rw [List.append_assoc, List.set_append_right _ _ (by omega), hplace, Nat.sub_self,
        List.cons_append, List.set_cons_zero, List.append_assoc, List.append_assoc]
      rfl
    rw [← Int.ofNat_tdiv, hsub, ← Int.ofNat_tdiv, hlow, hsub', hhigh,
      or_nibbles _ (by omega) _ (by omega), hset,
      ih _ old (by rw [List.length_append, hplace]; rfl) (by simpa using hold) (Nat.mod_lt _ hpos),
      packed, List.append_assoc done]
    rfl

theorem writePackedDecimal_eq (done : List Byte) {k v place placeValue m : ℕ} (n : ℕ)
    (hplace : done.length = place) (hvalue : 100 ^ k * 10 = placeValue) (hm : k + 1 + n = m)
    (h : v < 100 ^ (k + 1)) :
    writePackedDecimal (done ++ List.replicate m 0x00) place placeValue v =
      done ++ packed (k + 1) v ++ List.replicate n 0x00 := by
  subst hm hvalue
  have hmod : (v : ℤ).tmod ((100 ^ k * 10 : ℕ) * 10) = v := by
    have hlt : v % (100 ^ k * 10 * 10) = v := by
      apply Nat.mod_eq_of_lt
      rwa [Nat.mul_assoc, ← pow_succ]
    exact congrArg Nat.cast hlt
  rw [writePackedDecimal, hmod, ← place_succ, List.replicate_add, ← List.append_assoc,
    writePackedDecimalFrom_eq done _ _ hplace List.length_replicate h]

theorem extractFromPackedDecimalFrom_eq (done rest : List Byte) {k v place : ℕ} (result : ℕ)
    (hplace : done.length = place) (h : v < 100 ^ k) :
    extractFromPackedDecimalFrom (done ++ packed k v ++ rest) place (100 ^ k / 10) result =
      (result * 100 ^ k + v : ℕ) := by
  induction k generalizing done v place result with
  | zero =>
    rw [extractFromPackedDecimalFrom, if_neg (by decide)]
    omega
  | succ k ih =>
    have hpos : 0 < 100 ^ k := Nat.pow_pos (by omega)
    have hnext : 100 ^ k * 10 / 100 = 100 ^ k / 10 := by omega
    have hdigits : v / 100 ^ k < 100 := by
      rw [pow_succ] at h
      exact Nat.div_lt_of_lt_mul (by omega)
    have hbyte : (done ++ packed (k + 1) v ++ rest).getD place 0 =
        BitVec.ofNat 8 (v / 100 ^ k / 10 * 16 + v / 100 ^ k % 10) := by
      rw [packed, List.append_assoc, List.cons_append, List.getD_append_right _ _ _ _ (by omega), hplace,
        Nat.sub_self]
      rfl
    have hnat : (BitVec.ofNat 8 (v / 100 ^ k / 10 * 16 + v / 100 ^ k % 10)).toNat =
        v / 100 ^ k / 10 * 16 + v / 100 ^ k % 10 := by
      rw [BitVec.toNat_ofNat]
      omega
    have hsum : (result : ℤ) * 100 + ((v / 100 ^ k / 10 * 16 + v / 100 ^ k % 10) / 16 : ℕ) * 10 +
        ((v / 100 ^ k / 10 * 16 + v / 100 ^ k % 10) % 16 : ℕ) = (result * 100 + v / 100 ^ k : ℕ) := by
      omega
    have hlength : (done ++ [BitVec.ofNat 8 (v / 100 ^ k / 10 * 16 + v / 100 ^ k % 10)]).length =
        place + 1 := by
      rw [List.length_append, hplace, List.length_singleton]
    have hmore := ih _ (result * 100 + v / 100 ^ k) hlength (Nat.mod_lt v hpos)
    rw [List.append_assoc done, List.singleton_append] at hmore
    rw [place_succ, extractFromPackedDecimalFrom, if_pos (by omega), hbyte, hnat]
    dsimp only
    rw [hsum, hnext, packed, hmore]
    congr 1
    have hdiv := Nat.div_add_mod v (100 ^ k)
    rw [pow_succ]
    linarith

theorem extractFromPackedDecimal_eq {buffer : List Byte} (done rest : List Byte)
    {k v place placeValue : ℕ} (hbuffer : done ++ packed (k + 1) v ++ rest = buffer)
    (hplace : done.length = place) (hvalue : 100 ^ k * 10 = placeValue) (h : v < 100 ^ (k + 1)) :
    extractFromPackedDecimal buffer place placeValue = v := by
  subst hbuffer hvalue
  have heq := extractFromPackedDecimalFrom_eq done rest 0 hplace h
  rw [place_succ, Nat.zero_mul, Nat.zero_add] at heq
  exact heq

/-! Civil fields -/

theorem gmtime_r_natCast (n : ℕ) :
    gmtime_r n =
      { tm_sec := (n % 86400 % 60 : ℕ)
        tm_min := (n % 86400 / 60 % 60 : ℕ)
        tm_hour := (n % 86400 / 3600 : ℕ)
        tm_mday := (dateOf n).day
        tm_mon := (dateOf n).month - 1
        tm_year := (dateOf n).year - 1900
        tm_yday := (dateOf n).dayOfYear
        tm_isdst := 0 } := by
  have hday : ((Date.epoch.number : ℤ) + (n : ℤ) / 86400).toNat = Date.epoch.number + n / 86400 := by
    omega
  unfold gmtime_r dateOf
  rw [hday]
  rfl

theorem mktime_gmtime_r (zone : ℤ) (n : ℕ) (yday isdst : ℤ) :
    mktime zone { gmtime_r n with tm_yday := yday, tm_isdst := isdst } =
      (n - zone, gmtime_r n) := by
  have hnumber := dateOf_number n
  have hepoch : Date.epoch.number = 719528 := rfl
  have hmonth := (dateOf n).month_le
  have hpos := (dateOf n).month_pos
  have hday := (dateOf n).day_pos
  have hyear' : (1900 + (((dateOf n).year - 1900 : ℤ) * 12 + ((dateOf n).month - 1)) / 12).toNat =
      (dateOf n).year := by
    omega
  have hmonth' : ((((dateOf n).year - 1900 : ℤ) * 12 + ((dateOf n).month - 1)) % 12).toNat + 1 =
      (dateOf n).month := by
    omega
  have hclock : ((((daysBeforeYear (dateOf n).year : ℤ) +
      daysBeforeMonth (dateOf n).year (dateOf n).month + ((dateOf n).day - 1) - Date.epoch.number) * 24 +
      (n % 86400 / 3600 : ℕ)) * 60 + (n % 86400 / 60 % 60 : ℕ)) * 60 + (n % 86400 % 60 : ℕ) = (n : ℤ) := by
    unfold Date.dayOfYear at hnumber
    omega
  have hfields := gmtime_r_natCast n
  unfold mktime
  dsimp only
  rw [congrArg Tm.tm_year hfields, congrArg Tm.tm_mon hfields, congrArg Tm.tm_mday hfields,
    congrArg Tm.tm_hour hfields, congrArg Tm.tm_min hfields, congrArg Tm.tm_sec hfields]
  dsimp only
  rw [hyear', hmonth', hclock]

def sleazyDays (d : Date) : ℕ := (d.year - 1900) * 365 + d.dayOfYear

def sleazySeconds (n : ℕ) : ℕ := sleazyDays (dateOf n) * 86400 + n % 86400

theorem sleazyToSeconds_gmtime_r {n : ℕ} (h : n < 4102444800) :
    sleazyToSeconds (gmtime_r n) = BitVec.ofNat 64 (sleazySeconds n) := by
  obtain ⟨hlo, hhi⟩ := dateOf_year_bounds h
  have hfields := gmtime_r_natCast n
  have hyear : ((dateOf n).year : ℤ) - 1900 = ((dateOf n).year - 1900 : ℕ) := by omega
  have hsum : sleazySeconds n = (((((dateOf n).year - 1900) * 365 + (dateOf n).dayOfYear) * 24 +
      n % 86400 / 3600) * 60 + n % 86400 / 60 % 60) * 60 + n % 86400 % 60 := by
    unfold sleazySeconds sleazyDays
    omega
  unfold sleazyToSeconds
  rw [hsum, congrArg Tm.tm_year hfields, congrArg Tm.tm_yday hfields, congrArg Tm.tm_hour hfields,
    congrArg Tm.tm_min hfields, congrArg Tm.tm_sec hfields]
  dsimp only
  rw [hyear, BitVec.ofInt_natCast, BitVec.ofInt_natCast, BitVec.ofInt_natCast, BitVec.ofInt_natCast,
    BitVec.ofInt_natCast]
  simp only [BitVec.ofNat_add, BitVec.ofNat_mul]
  rfl

theorem sleazySeconds_lt {n : ℕ} (h : n < 4102444800) : sleazySeconds n < 2 ^ 33 := by
  obtain ⟨hlo, hhi⟩ := dateOf_year_bounds h
  have hlt := (dateOf n).dayOfYear_lt
  have hlength : yearLength (dateOf n).year ≤ 366 := by
    unfold yearLength
    split_ifs <;> omega
  unfold sleazySeconds sleazyDays
  omega

theorem timeZoneDifferenceInternal_eq {m n : ℕ} (hm : m < 4102444800) (hn : n < 4102444800)
    (hlo : sleazySeconds m < sleazySeconds n + 2 ^ 31) (hhi : sleazySeconds n < sleazySeconds m + 2 ^ 31) :
    timeZoneDifferenceInternal m (gmtime_r n) = (sleazySeconds n : ℤ) - sleazySeconds m := by
  have hmlt := sleazySeconds_lt hm
  have hnlt := sleazySeconds_lt hn
  unfold timeZoneDifferenceInternal
  dsimp only
  rw [sleazyToSeconds_gmtime_r hm, sleazyToSeconds_gmtime_r hn]
  have hmnat : (BitVec.ofNat 64 (sleazySeconds m)).toNat = sleazySeconds m := by
    rw [BitVec.toNat_ofNat]
    omega
  have hnnat : (BitVec.ofNat 64 (sleazySeconds n)).toNat = sleazySeconds n := by
    rw [BitVec.toNat_ofNat]
    omega
  generalize BitVec.ofNat 64 (sleazySeconds m) = utcBase at *
  generalize BitVec.ofNat 64 (sleazySeconds n) = localBase at *
  split_ifs with hwest
  · have hlt := BitVec.lt_def.mp hwest
    rw [BitVec.toInt_eq_toNat_cond, BitVec.toNat_setWidth, BitVec.toNat_sub]
    omega
  · have hge := fun h => hwest (BitVec.lt_def.mpr h)
    rw [BitVec.toInt_eq_toNat_cond, BitVec.toNat_setWidth, BitVec.toNat_sub, BitVec.toNat_ofInt,
      BitVec.toInt_eq_toNat_cond, BitVec.toNat_setWidth]
    omega

/-- The last day of a leap year ends between two days. -/
def LeapYearEndsBetween (d e : Date) : Prop := d.year ≠ e.year ∧ IsLeap (min d.year e.year)

instance (d e : Date) : Decidable (LeapYearEndsBetween d e) := by
  unfold LeapYearEndsBetween
  infer_instance

theorem LeapYearEndsBetween.comm {d e : Date} :
    LeapYearEndsBetween d e ↔ LeapYearEndsBetween e d := by
  unfold LeapYearEndsBetween
  rw [ne_comm, min_comm]

theorem year_of_next {d e : Date} (h : d.number ≤ e.number) (hnear : e.number ≤ d.number + 1) :
    e.year = d.year ∨ e.year = d.year + 1 := by
  have hdlt := d.dayOfYear_lt
  have helt := e.dayOfYear_lt
  have hdsucc := Calendar.daysBeforeYear_succ d.year
  have hesucc := Calendar.daysBeforeYear_succ e.year
  have hnext := Calendar.daysBeforeYear_succ (d.year + 1)
  have hlength : 2 ≤ yearLength (d.year + 1) := by
    unfold yearLength
    split_ifs <;> omega
  have hle := Calendar.daysBeforeYear_strictMono.lt_iff_lt (a := d.year) (b := e.year + 1)
  have hge := Calendar.daysBeforeYear_strictMono.lt_iff_lt (a := e.year) (b := d.year + 1 + 1)
  unfold Date.number at h hnear
  omega

theorem sleazyDays_add {d e : Date} (hyear : 1900 ≤ d.year) (h : d.number ≤ e.number)
    (hnear : e.number ≤ d.number + 1) :
    sleazyDays e + d.number + (if LeapYearEndsBetween d e then 1 else 0) =
      sleazyDays d + e.number := by
  unfold sleazyDays Date.number
  rcases year_of_next h hnear with heq | hsucc
  · rw [if_neg (fun hends => hends.1 heq.symm), heq]
    omega
  · have hbefore := Calendar.daysBeforeYear_succ d.year
    have hmin : min d.year e.year = d.year := min_eq_left (by omega)
    unfold yearLength at hbefore
    by_cases hleap : IsLeap d.year
    · have hends : LeapYearEndsBetween d e := ⟨by omega, by rwa [hmin]⟩
      rw [if_pos hleap] at hbefore
      rw [if_pos hends, hsucc, hbefore]
      omega
    · have hends : ¬LeapYearEndsBetween d e := fun hends => hleap (hmin ▸ hends.2)
      rw [if_neg hleap] at hbefore
      rw [if_neg hends, hsucc, hbefore]
      omega

theorem sleazySeconds_add {m n : ℕ} (h : m ≤ n) (hnear : n < m + 86400) (hm : m < 4102444800) :
    sleazySeconds n + (if LeapYearEndsBetween (dateOf m) (dateOf n) then 86400 else 0) =
      sleazySeconds m + (n - m) := by
  have hmnumber : (dateOf m).number = Date.epoch.number + m / 86400 := Date.number_ofNumber _
  have hnnumber : (dateOf n).number = Date.epoch.number + n / 86400 := Date.number_ofNumber _
  have hdays := @sleazyDays_add (dateOf m) (dateOf n) (by have := dateOf_year_bounds hm; omega)
    (by omega) (by omega)
  unfold sleazySeconds
  split_ifs at hdays ⊢ <;> omega

/-- What the second difference with UTC leaves of the zone's. -/
theorem timeZoneDifferenceInternal_cases {m n : ℕ} (hm : m < 4102444800) (hn : n < 4102444800)
    (hlo : m < n + 86400) (hhi : n < m + 86400) :
    timeZoneDifferenceInternal m (gmtime_r n) = n - m +
      if LeapYearEndsBetween (dateOf m) (dateOf n) then if m ≤ n then -86400 else 86400 else 0 := by
  rcases Nat.le_total m n with hle | hle
  · have hadd := sleazySeconds_add hle hhi hm
    rw [timeZoneDifferenceInternal_eq hm hn, if_pos hle]
    all_goals split_ifs at hadd ⊢ <;> omega
  · have hadd := sleazySeconds_add hle hlo hn
    have hcomm := @LeapYearEndsBetween.comm (dateOf m) (dateOf n)
    by_cases hends : LeapYearEndsBetween (dateOf m) (dateOf n)
    · have hne : m ≠ n := by
        intro heq
        exact hends.1 (heq ▸ rfl)
      rw [if_pos (hcomm.mp hends)] at hadd
      rw [timeZoneDifferenceInternal_eq hm hn, if_pos hends, if_neg (by omega)]
      all_goals omega
    · rw [if_neg (fun h => hends (hcomm.mpr h))] at hadd
      rw [timeZoneDifferenceInternal_eq hm hn, if_neg hends]
      all_goals omega

/-! The round trip -/

/-- The seconds of a clock value since 1970. -/
def unixSeconds (stck : BitVec 64) : ℕ := stck.toNat / 4096 / 1000000 - 2208988800

def stckMicroseconds (stck : BitVec 64) : ℕ := stck.toNat / 4096 % 1000000

def packedTimestamp (d : Date) (second micro : ℕ) : List Byte :=
  packed 1 (second / 3600) ++ packed 1 (second / 60 % 60) ++ packed 1 (second % 60) ++
    packed 3 micro ++ List.replicate 2 0x00 ++ packed 2 d.year ++ packed 1 d.month ++
    packed 1 d.day ++ List.replicate 4 0x00

theorem writePackedDecimal_timestamp (d : Date) {second micro : ℕ} (hyear : d.year < 10000)
    (hsecond : second < 86400) (hmicro : micro < 1000000) :
    writePackedDecimal (writePackedDecimal (writePackedDecimal (writePackedDecimal
      (writePackedDecimal (writePackedDecimal (writePackedDecimal (List.replicate 16 0x00)
        0 10 (second / 3600 : ℕ)) 1 10 (second / 60 % 60 : ℕ)) 2 10 (second % 60 : ℕ))
        3 100000 micro) 8 1000 d.year) 10 10 d.month) 11 10 d.day =
      packedTimestamp d second micro := by
  have hmonth := d.month_le
  have hday := d.day_le_thirtyone
  have hfirst : List.replicate 16 (0x00 : Byte) = [] ++ List.replicate 16 0x00 := rfl
  have hgap (done : List Byte) : done ++ List.replicate 10 (0x00 : Byte) =
      done ++ List.replicate 2 0x00 ++ List.replicate 8 0x00 := by
    rw [List.append_assoc]
    rfl
  rw [hfirst, writePackedDecimal_eq [] (k := 0) 15 (by rfl) (by rfl) (by rfl) (by omega),
    writePackedDecimal_eq _ (k := 0) 14 (by simp) (by rfl) (by rfl) (by omega),
    writePackedDecimal_eq _ (k := 0) 13 (by simp) (by rfl) (by rfl) (by omega),
    writePackedDecimal_eq _ (k := 2) 10 (by simp) (by rfl) (by rfl) hmicro, hgap,
    writePackedDecimal_eq _ (k := 1) 6 (by simp) (by rfl) (by rfl) hyear,
    writePackedDecimal_eq _ (k := 0) 5 (by simp) (by rfl) (by rfl) (by omega),
    writePackedDecimal_eq _ (k := 0) 4 (by simp) (by rfl) (by rfl) (by omega)]
  rfl

theorem stckToTimestamp_eq {stck : BitVec 64} (hlo : 2208988800 * 4096000000 ≤ stck.toNat)
    (hhi : unixSeconds stck < 4102444800) :
    stckToTimestamp stck = packedTimestamp (dateOf (unixSeconds stck)) (unixSeconds stck % 86400)
      (stckMicroseconds stck) := by
  obtain ⟨-, hyear⟩ := dateOf_year_bounds hhi
  have hmicros : (stck >>> 12).toNat = stck.toNat / 4096 := by
    rw [BitVec.toNat_ushiftRight, Nat.shiftRight_eq_div_pow]
  have hsec : (stckToTimeval stck).tv_sec.toInt = unixSeconds stck := by
    have hquotient : (stck >>> 12 / 1000000).toNat = stck.toNat / 4096 / 1000000 := by
      rw [BitVec.toNat_udiv, hmicros]
      rfl
    have hlt := stck.isLt
    unfold stckToTimeval secondsBetween360andUnixEpochs unixSeconds
    rw [BitVec.toInt_eq_toNat_cond, BitVec.toNat_sub, hquotient]
    have hepoch : (2208988800 : BitVec 64).toNat = 2208988800 := rfl
    omega
  have husec : ((stckToTimeval stck).tv_usec.setWidth 32).toInt = stckMicroseconds stck := by
    have hrest : (stck >>> 12 % 1000000).toNat = stck.toNat / 4096 % 1000000 := by
      rw [BitVec.toNat_umod, hmicros]
      rfl
    unfold stckToTimeval stckMicroseconds
    rw [BitVec.toInt_eq_toNat_cond, BitVec.toNat_setWidth, hrest]
    omega
  have hfields := gmtime_r_natCast (unixSeconds stck)
  have hwritten := writePackedDecimal_timestamp (dateOf (unixSeconds stck))
    (by omega) (Nat.mod_lt (unixSeconds stck) (by decide : 0 < 86400))
    (Nat.mod_lt (stck.toNat / 4096) (by decide : 0 < 1000000))
  unfold stckToTimestamp
  dsimp only
  rw [hsec, husec, congrArg Tm.tm_hour hfields, congrArg Tm.tm_min hfields,
    congrArg Tm.tm_sec hfields, congrArg Tm.tm_year hfields, congrArg Tm.tm_mon hfields,
    congrArg Tm.tm_mday hfields]
  dsimp only
  rw [Int.sub_add_cancel, Int.sub_add_cancel]
  exact hwritten

theorem extract_packedTimestamp (d : Date) {second micro : ℕ} (hyear : d.year < 10000)
    (hsecond : second < 86400) (hmicro : micro < 1000000) :
    extractFromPackedDecimal (packedTimestamp d second micro) 0 10 = (second / 3600 : ℕ) ∧
    extractFromPackedDecimal (packedTimestamp d second micro) 1 10 = (second / 60 % 60 : ℕ) ∧
    extractFromPackedDecimal (packedTimestamp d second micro) 2 10 = (second % 60 : ℕ) ∧
    extractFromPackedDecimal (packedTimestamp d second micro) 3 100000 = micro ∧
    extractFromPackedDecimal (packedTimestamp d second micro) 8 1000 = d.year ∧
    extractFromPackedDecimal (packedTimestamp d second micro) 10 10 = d.month ∧
    extractFromPackedDecimal (packedTimestamp d second micro) 11 10 = d.day := by
  have hmonth := d.month_le
  have hday := d.day_le_thirtyone
  let date := packed 2 d.year ++ (packed 1 d.month ++ (packed 1 d.day ++ List.replicate 4 0x00))
  let fraction := packed 3 micro ++ (List.replicate 2 0x00 ++ date)
  let clock := packed 1 (second / 3600) ++ packed 1 (second / 60 % 60) ++ packed 1 (second % 60)
  have hclock : clock ++ fraction = packedTimestamp d second micro := by
    simp only [clock, fraction, date, packedTimestamp, List.append_assoc]
  have hlength : clock.length = 3 := by simp [clock]
  refine ⟨?_, ?_, ?_, ?_, ?_, ?_, ?_⟩
  · exact extractFromPackedDecimal_eq [] (packed 1 (second / 60 % 60) ++ packed 1 (second % 60) ++ fraction)
      (k := 0) hclock rfl rfl (by omega)
  · exact extractFromPackedDecimal_eq (packed 1 (second / 3600)) (packed 1 (second % 60) ++ fraction)
      (k := 0) hclock rfl rfl (by omega)
  · exact extractFromPackedDecimal_eq (packed 1 (second / 3600) ++ packed 1 (second / 60 % 60)) fraction
      (k := 0) hclock rfl rfl (by omega)
  · exact extractFromPackedDecimal_eq clock (List.replicate 2 0x00 ++ date) (k := 2)
      (by rw [← hclock, List.append_assoc]) hlength rfl hmicro
  · exact extractFromPackedDecimal_eq (clock ++ packed 3 micro ++ List.replicate 2 0x00)
      (packed 1 d.month ++ (packed 1 d.day ++ List.replicate 4 0x00)) (k := 1)
      (by simp only [← hclock, fraction, date, List.append_assoc]) (by simp [hlength]) rfl hyear
  · exact extractFromPackedDecimal_eq (clock ++ packed 3 micro ++ List.replicate 2 0x00 ++
      packed 2 d.year) (packed 1 d.day ++ List.replicate 4 0x00) (k := 0)
      (by simp only [← hclock, fraction, date, List.append_assoc]) (by simp [hlength]) rfl (by omega)
  · exact extractFromPackedDecimal_eq (clock ++ packed 3 micro ++ List.replicate 2 0x00 ++
      packed 2 d.year ++ packed 1 d.month) (List.replicate 4 0x00) (k := 0)
      (by simp only [← hclock, fraction, date, List.append_assoc]) (by simp [hlength]) rfl (by omega)

def clearLow (stck : BitVec 64) : BitVec 64 := stck >>> 12 <<< 12

theorem timestampToSTCK_packedTimestamp (zone : ℤ) (old : BitVec 64) {n micro : ℕ}
    (hn : n < 4102444800) (hmicro : micro < 1000000) (hpos : zone < n) :
    timestampToSTCK zone (packedTimestamp (dateOf n) (n % 86400) micro) old 0 =
      ((0 : ℤ), (BitVec.ofInt 64 (n - zone + timeZoneDifferenceInternal (n - zone) (gmtime_r n) +
        2208988800) * 1000000 + BitVec.ofNat 64 micro) <<< 12) := by
  obtain ⟨hlo, hhi⟩ := dateOf_year_bounds hn
  obtain ⟨hhour, hmin, hsec, husec, hyear, hmonth, hday⟩ := extract_packedTimestamp (dateOf n)
    (by omega) (Nat.mod_lt n (by omega : 0 < 86400)) hmicro
  have hmktime := mktime_gmtime_r zone n 0 (-1)
  have hfields := gmtime_r_natCast n
  unfold timestampToSTCK
  dsimp only
  rw [hhour, hmin, hsec, husec, hyear, hmonth, hday, if_neg (by omega)]
  have hsplit : ({ gmtime_r n with tm_yday := 0, tm_isdst := -1 } : Tm) =
      { tm_hour := (n % 86400 / 3600 : ℕ), tm_min := (n % 86400 / 60 % 60 : ℕ)
        tm_sec := (n % 86400 % 60 : ℕ), tm_year := (dateOf n).year - 1900
        tm_mon := (dateOf n).month - 1, tm_mday := (dateOf n).day, tm_yday := 0, tm_isdst := -1 } := by
    rw [hfields]
  rw [hsplit] at hmktime
  rw [hmktime]
  dsimp only
  rw [if_neg (by omega), BitVec.ofInt_natCast]
  have hslt : BitVec.slt (0 : BitVec 64) 0 = false := rfl
  have hzero (x : BitVec 64) : x + 0 = x := BitVec.add_zero x
  rw [hslt, if_neg Bool.false_ne_true, hzero]
  rfl

/-- What is wrong where a leap year ends between the two times: a day. -/
theorem timestampToSTCK_stckToTimestamp {zone : ℤ} {stck : BitVec 64} (old : BitVec 64)
    (hzone : -86400 < zone ∧ zone < 86400)
    (hlo : (2208988800 + 86400) * 4096000000 ≤ stck.toNat)
    (hhi : stck.toNat ≤ (2208988800 + 2272147200) * 4096000000) :
    timestampToSTCK zone (stckToTimestamp stck) old 0 =
      (0, clearLow stck + BitVec.ofInt 64
        (if LeapYearEndsBetween (dateOf (unixSeconds stck - zone).toNat) (dateOf (unixSeconds stck))
          then if 0 ≤ zone then -86400 else 86400 else 0) * 4096000000) := by
  have hsec : 86400 ≤ unixSeconds stck ∧ unixSeconds stck ≤ 2272147200 := by
    unfold unixSeconds
    omega
  have hbase : (((unixSeconds stck : ℤ) - zone).toNat : ℤ) = unixSeconds stck - zone := by omega
  have hdifference := @timeZoneDifferenceInternal_cases (unixSeconds stck - zone).toNat
    (unixSeconds stck) (by omega) (by omega) (by omega) (by omega)
  have hmicro : stckMicroseconds stck < 1000000 := Nat.mod_lt _ (by decide)
  have hsign : (unixSeconds stck - zone).toNat ≤ unixSeconds stck ↔ 0 ≤ zone := by omega
  rw [hbase] at hdifference
  simp only [hsign] at hdifference
  rw [stckToTimestamp_eq (by omega) (by omega), timestampToSTCK_packedTimestamp zone old (by omega)
    hmicro (by omega), hdifference]
  generalize (if LeapYearEndsBetween (dateOf (unixSeconds stck - zone).toNat)
    (dateOf (unixSeconds stck)) then if 0 ≤ zone then -86400 else 86400 else 0) = wrong
  have hseconds : (unixSeconds stck : ℤ) - zone + (unixSeconds stck - (unixSeconds stck - zone) + wrong) +
      2208988800 = (unixSeconds stck + 2208988800 : ℕ) + wrong := by
    push_cast
    ring
  have hwhole : stck >>> 12 = BitVec.ofNat 64 (unixSeconds stck + 2208988800) * 1000000 +
      BitVec.ofNat 64 (stckMicroseconds stck) := by
    apply BitVec.eq_of_toNat_eq
    have hlt := stck.isLt
    have hmillion : (1000000 : BitVec 64).toNat = 1000000 := rfl
    rw [BitVec.toNat_ushiftRight, Nat.shiftRight_eq_div_pow, BitVec.toNat_add, BitVec.toNat_mul,
      BitVec.toNat_ofNat, BitVec.toNat_ofNat, hmillion]
    unfold unixSeconds stckMicroseconds
    omega
  rw [hseconds, BitVec.ofInt_add, BitVec.ofInt_natCast, clearLow, hwhole,
    BitVec.shiftLeft_eq_mul_twoPow, BitVec.shiftLeft_eq_mul_twoPow]
  have htwo : BitVec.twoPow 64 12 = 4096 := rfl
  rw [htwo]
  ring_nf

def RoundTrips (zone : ℤ) (stck : BitVec 64) : Prop :=
  ∀ old : BitVec 64, timestampToSTCK zone (stckToTimestamp stck) old 0 = (0, clearLow stck)

/-- The exact condition: no leap year ends between the value and the time at which the clocks of
the zone show what the timestamp says. -/
theorem roundTrips_iff {zone : ℤ} {stck : BitVec 64} (hzone : -86400 < zone ∧ zone < 86400)
    (hlo : (2208988800 + 86400) * 4096000000 ≤ stck.toNat)
    (hhi : stck.toNat ≤ (2208988800 + 2272147200) * 4096000000) :
    RoundTrips zone stck ↔
      ¬LeapYearEndsBetween (dateOf (unixSeconds stck - zone).toNat) (dateOf (unixSeconds stck)) := by
  have heq (old : BitVec 64) := timestampToSTCK_stckToTimestamp old hzone hlo hhi
  unfold RoundTrips
  constructor
  · intro htrip hends
    have hsame := (heq 0).symm.trans (htrip 0)
    rw [if_pos hends, Prod.mk.injEq] at hsame
    have hzero : BitVec.ofInt 64 (if 0 ≤ zone then -86400 else 86400) * 4096000000 = 0 :=
      add_eq_left.mp hsame.2
    split_ifs at hzero with hsign
    · exact absurd hzero (by decide)
    · exact absurd hzero (by decide)
  · intro hends old
    have hzero : BitVec.ofInt 64 0 = 0 := rfl
    rw [heq old, if_neg hends, hzero, zero_mul, add_zero]

/-- An hour east of UTC, on the 18th of June 2012. -/
theorem roundTrips_june : RoundTrips 3600 14536691020566528123 :=
  (roundTrips_iff (by decide) (by decide) (by decide)).mpr (by decide)

/-- An hour east of UTC, in the first second of 2001. -/
theorem not_roundTrips : ¬∀ (zone : ℤ) (stck : BitVec 64), -86400 < zone ∧ zone < 86400 →
    (2208988800 + 86400) * 4096000000 ≤ stck.toNat →
    stck.toNat ≤ (2208988800 + 2272147200) * 4096000000 → RoundTrips zone stck := by
  intro h
  have htrip := h 3600 13055164416000000000 (by decide) (by decide) (by decide) 0
  rw [timestampToSTCK_stckToTimestamp 0 (by decide) (by decide) (by decide)] at htrip
  exact absurd htrip (by decide)

end TimeUtils
end ZoweCommon
