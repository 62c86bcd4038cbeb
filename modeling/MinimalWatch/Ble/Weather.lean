import MinimalWatch.Ble.PacketRx
import MinimalWatch.Lib.BigEndian

/-! Weather and time as the phone sends them, from ble_response_handler.c: the decoders,
and against them the layout that the payload has on the link. The layout has no gaps, so
a payload of the right length is the encoding of what it decodes to. -/

namespace MinimalWatch.Ble
open Firmware.Memory Firmware.BigEndian

structure HourlyWeather where
  temperature : Int16
  humidity : UInt8
  precipProb : UInt8
  weatherCode : UInt8
  windSpeed : UInt8
  deriving DecidableEq, Repr

def hoursPerDay : Nat := 24

structure WeatherSync where
  expiresAt : UInt32
  hourlyToday : Buffer HourlyWeather hoursPerDay
  deriving DecidableEq, Repr

structure TimeSync where
  lastSyncTime : UInt32
  timeSyncUptime : UInt32
  valid : UInt8
  deriving DecidableEq, Repr

def timePayloadLen : Nat := 4
def weatherPayloadLen : Nat := 148

/-! ### The decoders -/

/-- Four bytes at `idx`, the high byte first. -/
def epochAt (payload : List UInt8) (idx : Nat) : UInt32 :=
  word32 (byteAt payload idx) (byteAt payload (idx + 1)) (byteAt payload (idx + 2))
    (byteAt payload (idx + 3))

/-- The epoch that `parse_date_time_payload` hands on. -/
def parseDateTimePayload (payload : List UInt8) : UInt32 := epochAt payload 0

/-- One turn of the loop of `parse_weather_payload`, with its `idx`. -/
def parseHour (payload : List UInt8) (idx : Nat) : HourlyWeather where
  temperature := (word16 (byteAt payload idx) (byteAt payload (idx + 1))).toInt16
  humidity := byteAt payload (idx + 2)
  precipProb := byteAt payload (idx + 3)
  weatherCode := byteAt payload (idx + 4)
  windSpeed := byteAt payload (idx + 5)

/-- The loop from `idx` on, with `hours` turns left. -/
def parseHours (payload : List UInt8) (idx : Nat) : Nat → List HourlyWeather
  | 0 => []
  | hours + 1 => parseHour payload idx :: parseHours payload (idx + 6) hours

@[simp] theorem parseHours_length (payload : List UInt8) (idx hours : Nat) :
    (parseHours payload idx hours).length = hours := by
  induction hours generalizing idx with
  | zero => rfl
  | succ hours ih => rw [parseHours, List.length_cons, ih]

def parseWeatherPayload (payload : List UInt8) : WeatherSync where
  expiresAt := epochAt payload 0
  hourlyToday := ⟨parseHours payload 4 hoursPerDay, parseHours_length payload 4 hoursPerDay⟩

/-! ### The layout -/

def encodeEpoch (epoch : UInt32) : List UInt8 := digits 4 epoch.toNat

def HourlyWeather.encode (h : HourlyWeather) : List UInt8 :=
  digits 2 h.temperature.toUInt16.toNat ++
    [h.humidity, h.precipProb, h.weatherCode, h.windSpeed]

def WeatherSync.encode (w : WeatherSync) : List UInt8 :=
  encodeEpoch w.expiresAt ++ w.hourlyToday.cells.flatMap HourlyWeather.encode

@[simp] theorem encodeEpoch_length (epoch : UInt32) :
    (encodeEpoch epoch).length = timePayloadLen :=
  digits_length 4 _

@[simp] theorem HourlyWeather.encode_length (h : HourlyWeather) : h.encode.length = 6 := by
  rw [encode, List.length_append, digits_length]
  rfl

theorem hours_encode_length (hours : List HourlyWeather) :
    (hours.flatMap HourlyWeather.encode).length = 6 * hours.length := by
  induction hours with
  | nil => rfl
  | cons h hours ih =>
    rw [List.flatMap_cons, List.length_append, ih, HourlyWeather.encode_length, List.length_cons]
    omega

@[simp] theorem WeatherSync.encode_length (w : WeatherSync) :
    w.encode.length = weatherPayloadLen := by
  rw [encode, List.length_append, encodeEpoch_length, hours_encode_length, Buffer.length_eq]
  rfl

/-! ### A payload is the encoding of what is decoded from it -/

theorem slice_succ {payload : List UInt8} {idx length : Nat} (h : idx < payload.length) :
    slice payload idx (length + 1) = byteAt payload idx :: slice payload (idx + 1) length := by
  rw [slice, drop_eq_byteAt h, List.take_succ_cons]
  rfl

theorem encodeEpoch_epochAt {payload : List UInt8} {idx : Nat} (h : idx + 4 ≤ payload.length) :
    encodeEpoch (epochAt payload idx) = slice payload idx 4 := by
  rw [encodeEpoch, epochAt, digits_word32, slice_succ (by omega), slice_succ (by omega),
    slice_succ (by omega), slice_succ (by omega)]
  rfl

theorem encode_parseHour {payload : List UInt8} {idx : Nat} (h : idx + 6 ≤ payload.length) :
    (parseHour payload idx).encode = slice payload idx 6 := by
  have htemp : digits 2 (parseHour payload idx).temperature.toUInt16.toNat =
      [byteAt payload idx, byteAt payload (idx + 1)] :=
    digits_word16 _ _
  rw [HourlyWeather.encode, htemp, slice_succ (by omega), slice_succ (by omega),
    slice_succ (by omega), slice_succ (by omega), slice_succ (by omega), slice_succ (by omega)]
  rfl

theorem encode_parseHours {payload : List UInt8} {idx hours : Nat}
    (h : idx + 6 * hours ≤ payload.length) :
    (parseHours payload idx hours).flatMap HourlyWeather.encode =
      slice payload idx (6 * hours) := by
  induction hours generalizing idx with
  | zero => rfl
  | succ hours ih =>
    have hsplit : slice payload idx (6 * (hours + 1)) =
        slice payload idx 6 ++ slice payload (idx + 6) (6 * hours) := by
      rw [slice, slice, slice, ← List.drop_drop, ← List.take_add]
      congr 1
      omega
    rw [parseHours, List.flatMap_cons, ih (by omega), encode_parseHour (by omega), hsplit]

theorem encodeEpoch_parse {payload : List UInt8} (h : timePayloadLen ≤ payload.length) :
    encodeEpoch (parseDateTimePayload payload) = payload.take timePayloadLen :=
  encodeEpoch_epochAt h

/-- The decoder reads the first 148 bytes of the array, all of them, and nothing else. -/
theorem encode_parseWeatherPayload {payload : List UInt8}
    (h : weatherPayloadLen ≤ payload.length) :
    (parseWeatherPayload payload).encode = payload.take weatherPayloadLen := by
  have hlen : 148 ≤ payload.length := h
  have hhours : (parseHours payload 4 hoursPerDay).flatMap HourlyWeather.encode =
      slice payload 4 144 :=
    encode_parseHours hlen
  have hepoch : encodeEpoch (epochAt payload 0) = slice payload 0 4 :=
    encodeEpoch_epochAt (by omega)
  rw [WeatherSync.encode]
  simp only [parseWeatherPayload]
  rw [hhours, hepoch]
  exact (@List.take_add _ payload 4 144).symm

/-! ### The layout tells all values apart -/

theorem encodeEpoch_inj {epoch epoch' : UInt32} (h : encodeEpoch epoch = encodeEpoch epoch') :
    epoch = epoch' :=
  UInt32.toNat_inj.mp (digits_inj epoch.toNat_lt epoch'.toNat_lt h)

theorem HourlyWeather.encode_inj {h h' : HourlyWeather} (heq : h.encode = h'.encode) :
    h = h' := by
  obtain ⟨htemp, hrest⟩ := List.append_inj heq (by rw [digits_length, digits_length])
  have hbits := UInt16.toNat_inj.mp
    (digits_inj (UInt16.toNat_lt _) (UInt16.toNat_lt _) htemp)
  obtain ⟨temperature, humidity, precipProb, weatherCode, windSpeed⟩ := h
  obtain ⟨temperature', humidity', precipProb', weatherCode', windSpeed'⟩ := h'
  simp only [List.cons.injEq, and_true] at hrest
  obtain ⟨rfl, rfl, rfl, rfl⟩ := hrest
  congr 1
  exact Int16.toBitVec_inj.mp (congrArg UInt16.toBitVec hbits)

theorem hours_encode_inj {hours hours' : List HourlyWeather} (hlen : hours.length = hours'.length)
    (heq : hours.flatMap HourlyWeather.encode = hours'.flatMap HourlyWeather.encode) :
    hours = hours' := by
  induction hours generalizing hours' with
  | nil => exact (List.eq_nil_of_length_eq_zero hlen.symm).symm
  | cons h hours ih =>
    cases hours' with
    | nil => cases hlen
    | cons h' hours' =>
      obtain ⟨hhead, htail⟩ := List.append_inj heq (by
        rw [HourlyWeather.encode_length, HourlyWeather.encode_length])
      rw [HourlyWeather.encode_inj hhead, ih (Nat.succ.inj hlen) htail]

theorem WeatherSync.encode_inj {w w' : WeatherSync} (heq : w.encode = w'.encode) : w = w' := by
  obtain ⟨hepoch, hhours⟩ := List.append_inj heq (by
    rw [encodeEpoch_length, encodeEpoch_length])
  obtain ⟨expiresAt, ⟨cells, hcells⟩⟩ := w
  obtain ⟨expiresAt', ⟨cells', hcells'⟩⟩ := w'
  obtain rfl := encodeEpoch_inj hepoch
  obtain rfl := hours_encode_inj (hcells.trans hcells'.symm) hhours
  rfl

/-- What was encoded is decoded. -/
theorem parseWeatherPayload_encode (w : WeatherSync) : parseWeatherPayload w.encode = w := by
  have hlen := w.encode_length
  apply WeatherSync.encode_inj
  rw [encode_parseWeatherPayload (Nat.le_of_eq hlen.symm)]
  exact List.take_of_length_le (Nat.le_of_eq hlen)

end MinimalWatch.Ble
