import MinimalWatch.Ble.Weather

/-! The weather payload against its documented layout. The decoder is written once more with
its running index and with a record of the bytes it reads; the layout gives the place of
every field by its offset. -/

namespace MinimalWatch.Ble
open Firmware.Memory Firmware.BigEndian

/-! ### The bytes that are read -/

/-- `payload[idx]`, on record. -/
def readByte (payload : List UInt8) (idx : Nat) : StateM (List Nat) UInt8 := do
  modify (· ++ [idx])
  return byteAt payload idx

/-- One turn of the loop, with the index after it. -/
def readHour (payload : List UInt8) (idx : Nat) : StateM (List Nat) (HourlyWeather × Nat) := do
  let high ← readByte payload idx
  let low ← readByte payload (idx + 1)
  let idx := idx + 2
  let humidity ← readByte payload idx
  let idx := idx + 1
  let precipProb ← readByte payload idx
  let idx := idx + 1
  let weatherCode ← readByte payload idx
  let idx := idx + 1
  let windSpeed ← readByte payload idx
  let idx := idx + 1
  return (⟨(word16 high low).toInt16, humidity, precipProb, weatherCode, windSpeed⟩, idx)

def readHours (payload : List UInt8) (idx : Nat) : Nat → StateM (List Nat) (List HourlyWeather)
  | 0 => return []
  | hours + 1 => do
    let (hour, idx) ← readHour payload idx
    let rest ← readHours payload idx hours
    return hour :: rest

/-- The expiry, with the index after it. -/
def readExpiry (payload : List UInt8) (idx : Nat) : StateM (List Nat) (UInt32 × Nat) := do
  let b0 ← readByte payload idx
  let b1 ← readByte payload (idx + 1)
  let b2 ← readByte payload (idx + 2)
  let b3 ← readByte payload (idx + 3)
  return (word32 b0 b1 b2 b3, idx + 4)

def readWeatherPayload (payload : List UInt8) :
    StateM (List Nat) (UInt32 × List HourlyWeather) := do
  let (expiresAt, idx) ← readExpiry payload 0
  let hourlyToday ← readHours payload idx hoursPerDay
  return (expiresAt, hourlyToday)

theorem readExpiry_run (payload : List UInt8) (idx : Nat) (reads : List Nat) :
    (readExpiry payload idx).run reads =
      ((epochAt payload idx, idx + 4), reads ++ List.range' idx 4) := by
  have hreads : reads ++ [idx] ++ [idx + 1] ++ [idx + 2] ++ [idx + 3] =
      reads ++ List.range' idx 4 := by
    simp only [List.append_assoc]
    rfl
  rw [← hreads]
  rfl

theorem readHour_run (payload : List UInt8) (idx : Nat) (reads : List Nat) :
    (readHour payload idx).run reads =
      ((parseHour payload idx, idx + 6), reads ++ List.range' idx 6) := by
  have hreads : reads ++ [idx] ++ [idx + 1] ++ [idx + 2] ++ [idx + 3] ++ [idx + 4] ++ [idx + 5] =
      reads ++ List.range' idx 6 := by
    simp only [List.append_assoc]
    rfl
  rw [← hreads]
  rfl

theorem readHours_run (payload : List UInt8) (idx hours : Nat) (reads : List Nat) :
    (readHours payload idx hours).run reads =
      (parseHours payload idx hours, reads ++ List.range' idx (6 * hours)) := by
  induction hours generalizing idx reads with
  | zero =>
    rw [Nat.mul_zero, List.range'_zero, List.append_nil]
    rfl
  | succ hours ih =>
    have hcount : List.range' idx (6 * (hours + 1)) =
        List.range' idx 6 ++ List.range' (idx + 6) (6 * hours) := by
      rw [List.range'_append_1]
      congr 1
      omega
    rw [readHours, StateT.run_bind, readHour_run]
    simp only [StateT.run_bind, ih]
    rw [hcount, ← List.append_assoc]
    rfl

/-- It computes what `parseWeatherPayload` does and reads the bytes 0 to 147, each once
and in their order. -/
theorem readWeatherPayload_run (payload : List UInt8) :
    (readWeatherPayload payload).run [] =
      (((parseWeatherPayload payload).expiresAt, (parseWeatherPayload payload).hourlyToday.cells),
        List.range weatherPayloadLen) := by
  have hreads : List.range weatherPayloadLen =
      [] ++ List.range' 0 4 ++ List.range' 4 (6 * hoursPerDay) := rfl
  rw [readWeatherPayload, StateT.run_bind, readExpiry_run]
  simp only [StateT.run_bind, readHours_run]
  rw [hreads]
  rfl

/-! ### The layout -/

/-- A number of 16 bits as a signed one. -/
def signed16 (n : Nat) : Int := if n < 2 ^ 15 then n else n - 2 ^ 16

structure HourAt (payload : List UInt8) (idx : Nat) (h : HourlyWeather) : Prop where
  temperature : h.temperature.toInt = signed16 (value (slice payload idx 2))
  humidity : payload[idx + 2]? = some h.humidity
  precipProb : payload[idx + 3]? = some h.precipProb
  weatherCode : payload[idx + 4]? = some h.weatherCode
  windSpeed : payload[idx + 5]? = some h.windSpeed

/-- The documented layout: hour `H` at offset 4 + 6 * H. -/
structure WeatherLayout (payload : List UInt8) (w : WeatherSync) : Prop where
  expiresAt : w.expiresAt.toNat = value (slice payload 0 4)
  hourlyToday : ∀ H < hoursPerDay, ∃ hour, w.hourlyToday.cells[H]? = some hour ∧
    HourAt payload (4 + 6 * H) hour

theorem word16_toInt (b0 b1 : UInt8) :
    (word16 b0 b1).toInt16.toInt = signed16 (value [b0, b1]) := by
  have hlt := (word16 b0 b1).toNat_lt
  have hword := word16_toNat b0 b1
  have hint : (word16 b0 b1).toInt16.toInt = ((word16 b0 b1).toNat : Int).bmod (2 ^ 16) :=
    BitVec.toInt_eq_toNat_bmod _
  rw [hint, signed16, ← hword]
  split_ifs with h
  · exact Int.bmod_eq_of_le (by omega) (by omega)
  · rw [Int.bmod_neg _ _ (by omega)]
    omega

theorem hourAt_parseHour {payload : List UInt8} {idx : Nat} (h : idx + 6 ≤ payload.length) :
    HourAt payload idx (parseHour payload idx) := by
  have hbyte : ∀ k < 6, payload[idx + k]? = some (byteAt payload (idx + k)) := by
    intro k hk
    rw [byteAt, List.getD_eq_getElem?_getD, List.getElem?_eq_getElem (by omega)]
    rfl
  refine ⟨?_, hbyte 2 (by omega), hbyte 3 (by omega), hbyte 4 (by omega), hbyte 5 (by omega)⟩
  rw [slice_succ (by omega), slice_succ (by omega)]
  exact word16_toInt _ _

theorem getElem?_parseHours (payload : List UInt8) (idx : Nat) {hours H : Nat} (h : H < hours) :
    (parseHours payload idx hours)[H]? = some (parseHour payload (idx + 6 * H)) := by
  induction hours generalizing idx H with
  | zero => omega
  | succ hours ih =>
    cases H with
    | zero => rfl
    | succ H =>
      rw [parseHours, List.getElem?_cons_succ, ih (idx + 6) (by omega)]
      congr 2
      omega

theorem weatherLayout_parse {payload : List UInt8} (h : payload.length = weatherPayloadLen) :
    WeatherLayout payload (parseWeatherPayload payload) := by
  have hlen : payload.length = 148 := h
  refine ⟨?_, fun H hH => ⟨_, getElem?_parseHours payload 4 hH, hourAt_parseHour ?_⟩⟩
  · have hword := word32_toNat (byteAt payload 0) (byteAt payload 1) (byteAt payload 2)
      (byteAt payload 3)
    rw [slice_succ (by omega), slice_succ (by omega), slice_succ (by omega),
      slice_succ (by omega)]
    exact hword
  · have hhours : hoursPerDay = 24 := rfl
    omega

/-- The decoder reads every byte of a payload once and gives what the layout says; by that
layout the result is the payload again, and every weather is that of exactly one payload. -/
theorem weather_lossless :
    (∀ payload : List UInt8, payload.length = weatherPayloadLen →
      (readWeatherPayload payload).run [] =
        (((parseWeatherPayload payload).expiresAt,
          (parseWeatherPayload payload).hourlyToday.cells), List.range weatherPayloadLen) ∧
      WeatherLayout payload (parseWeatherPayload payload) ∧
      (parseWeatherPayload payload).encode = payload) ∧
    ∀ w : WeatherSync, ∃! payload : List UInt8,
      payload.length = weatherPayloadLen ∧ parseWeatherPayload payload = w := by
  have hback : ∀ payload : List UInt8, payload.length = weatherPayloadLen →
      (parseWeatherPayload payload).encode = payload := by
    intro payload h
    rw [encode_parseWeatherPayload (Nat.le_of_eq h.symm)]
    exact List.take_of_length_le (Nat.le_of_eq h)
  refine ⟨fun payload h => ⟨readWeatherPayload_run payload, weatherLayout_parse h,
    hback payload h⟩, fun w => ⟨w.encode, ⟨w.encode_length, parseWeatherPayload_encode w⟩, ?_⟩⟩
  rintro payload ⟨h, rfl⟩
  exact (hback payload h).symm

end MinimalWatch.Ble
