import Mathlib.Algebra.GroupWithZero.Nat
import MinimalWatch.Lib.Buffer

/-! `app_update_t`, the answer of the phone that is on its way to an app, from
common_types.h: the record and its bytes in memory. The layout has enumerations of four
bytes, the low one first, and closes with three bytes of padding. -/

namespace MinimalWatch.App
open Firmware.Memory

def maxAppResponseSize : Nat := 256

def sizeofAppUpdate : Nat := 264

/-- DATED_WEATHER_REQUEST, the one value of `app_ble_req_t`. -/
def datedWeatherRequest : UInt32 := 0

structure AppUpdate where
  req : UInt32
  reqApp : UInt8
  data : Buffer UInt8 maxAppResponseSize
  deriving DecidableEq, Repr

/-! ### Enumerations in memory -/

def enumBytes (e : UInt32) : List UInt8 :=
  [UInt8.ofNat e.toNat, UInt8.ofNat (e.toNat / 2 ^ 8), UInt8.ofNat (e.toNat / 2 ^ 16),
    UInt8.ofNat (e.toNat / 2 ^ 24)]

def enumOfBytes (bytes : List UInt8) : UInt32 :=
  UInt32.ofNat (bytes.foldr (fun b acc => b.toNat + 2 ^ 8 * acc) 0)

@[simp] theorem enumBytes_length (e : UInt32) : (enumBytes e).length = 4 := rfl

@[simp] theorem enumOfBytes_enumBytes (e : UInt32) : enumOfBytes (enumBytes e) = e := by
  have he := e.toNat_lt
  apply UInt32.toNat_inj.mp
  simp only [enumOfBytes, enumBytes, List.foldr, UInt32.toNat_ofNat', UInt8.toNat_ofNat']
  omega

namespace AppUpdate

def toBytes (u : AppUpdate) : List UInt8 :=
  enumBytes u.req ++ [u.reqApp] ++ u.data.cells ++ [0, 0, 0]

/-- What a pointer to an `app_update_t` gives; bytes past the end read as 0. -/
def ofBytes (bytes : List UInt8) : AppUpdate where
  req := enumOfBytes (slice bytes 0 4)
  reqApp := bytes.getD 4 0
  data := (Buffer.fill maxAppResponseSize 0).blit 0 (slice bytes 5 maxAppResponseSize)

@[simp] theorem toBytes_length (u : AppUpdate) : u.toBytes.length = sizeofAppUpdate := by
  simp [toBytes, u.data.length_eq, maxAppResponseSize, sizeofAppUpdate]

@[simp] theorem ofBytes_toBytes (u : AppUpdate) : ofBytes u.toBytes = u := by
  have hdata : slice u.toBytes 5 maxAppResponseSize = u.data.cells := by
    have hlen : (enumBytes u.req ++ [u.reqApp]).length = 5 := rfl
    rw [slice, toBytes, List.append_assoc _ u.data.cells, ← hlen, List.drop_left]
    exact List.take_left' u.data.length_eq
  obtain ⟨req, reqApp, data⟩ := u
  rw [ofBytes, hdata]
  congr 1
  · exact enumOfBytes_enumBytes req
  · exact Buffer.blit_all _ data

end AppUpdate

end MinimalWatch.App
