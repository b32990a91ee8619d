import LinuxInterview.Wbtest.Drm

/-!
# One scenario of `wbtest.c`
-/

namespace LinuxInterview.Wbtest
open Library

inductive Format
  | xrgb8888
  | argb8888
  | bgr888
  | rgb565
  | nv12
  | other (code : UInt32)
  deriving DecidableEq, Repr

inductive Mapping
  | null
  | failed
  | mapped (address : Nat)
  deriving DecidableEq, Repr

structure Buf where
  w : UInt32
  h : UInt32
  fmt : Format
  handle : Nat
  pitch : UInt32
  fb : Nat
  size : UInt64
  map : Mapping
  deriving DecidableEq, Repr

def Buf.zero : Buf := ⟨0, 0, .other 0, 0, 0, 0, 0, .null⟩

def einval : Int := 22
def etimedout : Int := 110

/-- Bits per pixel of a format that `mkbuf` knows. -/
def Format.bpp : Format → Option UInt32
  | .xrgb8888 | .argb8888 => some 32
  | .bgr888 => some 24
  | .rgb565 => some 16
  | .nv12 => some 8
  | .other _ => none

def mkbuf (k : Kernel) (b : Buf) (w h : UInt32) (fmt : Format) (d : Drm) : Int × Buf × Drm :=
  match fmt.bpp with
  | none => (-einval, b, d)
  | some bpp =>
      let height := if fmt = .nv12 then h * 3 / 2 else h
      match k.create .handle d with
      | (.error r, d) => (r, b, d)
      | (.ok handle, d) =>
          let b := { b with
            w := w
            h := h
            fmt := fmt
            handle := handle
            pitch := k.pitch w bpp
            size := k.size w height bpp }
          match k.create .fb d with
          | (.error r, d) => (r, b, d)
          | (.ok fb, d) =>
              let b := { b with fb := fb }
              match k.call d with
              | (.error r, d) => (r, b, d)
              | (.ok (), d) =>
                  match k.create .map d with
                  | (.error r, d) => (r, { b with map := .failed }, d)
                  | (.ok address, d) => (0, { b with map := .mapped address }, d)

def rmbuf (b : Buf) (d : Drm) : Buf × Drm :=
  let d := match b.map with
    | .mapped address => destroy .map address d
    | .failed | .null => d
  let d := destroy .fb b.fb d
  let d := destroy .handle b.handle d
  (.zero, d)

structure Scen where
  primW : UInt32
  primH : UInt32
  overlay : Int32
  wbW : UInt32
  wbH : UInt32
  wbFmt : Format
  frames : Int32
  deriving DecidableEq, Repr

def commitFrames (k : Kernel) : Nat → Drm → Int × Drm
  | 0, d => (0, d)
  | frames + 1, d =>
      match k.call d with
      | (.error r, d) => (r, d)
      | (.ok (), d) => if k.poll d.calls then commitFrames k frames d else (-etimedout, d)

def run (k : Kernel) (s : Scen) (d : Drm) : Int × Drm :=
  let (r, prim, d) := mkbuf k .zero s.primW s.primH .xrgb8888 d
  if r ≠ 0 then (r, d)
  else
    let (r, ovl, d) := if s.overlay ≠ 0 then mkbuf k .zero 512 512 .argb8888 d else (0, .zero, d)
    if r ≠ 0 then (r, d)
    else
      let (r, wb, d) := mkbuf k .zero s.wbW s.wbH s.wbFmt d
      if r ≠ 0 then (r, d)
      else
        match k.create .blob d with
        | (.error r, d) => (r, d)
        | (.ok blob, d) =>
            let (ret, d) := commitFrames k s.frames.toInt.toNat d
            -- the commit that turns the planes off, whose failure is only printed
            let (_, d) := k.call d
            let d := destroy .blob blob d
            let (_, d) := rmbuf prim d
            let d := if s.overlay ≠ 0 then (rmbuf ovl d).2 else d
            let (_, d) := rmbuf wb d
            (ret, d)

end LinuxInterview.Wbtest
