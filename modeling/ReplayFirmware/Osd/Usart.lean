import Mathlib.Data.List.Basic
import Mathlib.Logic.Function.Basic

/-! The serial port, as seen by who reads it.

    The interrupt handler puts what arrives into a ring of 16 bytes and does not look whether there is
    room: a ring that has come round looks empty. A reader can look at the bytes in the ring before it
    takes them. -/

namespace Osd

/-- The receive ring: `USART_rxbuf`, `USART_rxptr` and `USART_rdptr`. -/
structure Usart where
  rxbuf : ℕ → UInt8
  rxptr : ℕ
  rdptr : ℕ

/-- `RXBUFLEN` -/
def rxBufLen : ℕ := 16

/-- The ring before anything has arrived. -/
def Usart.empty : Usart := { rxbuf := fun _ => 0, rxptr := 0, rdptr := 0 }

/-- `ISR_USART`, with a character. -/
def isrUsart (u : Usart) (c : UInt8) : Usart :=
  { u with rxbuf := Function.update u.rxbuf u.rxptr c, rxptr := (u.rxptr + 1) % rxBufLen }

/-- What arrives between two looks at the ring. -/
def receive (u : Usart) (cs : List UInt8) : Usart := cs.foldl isrUsart u

/-- `USART_GetValid` -/
def getValid (u : Usart) : Bool := u.rxptr ≠ u.rdptr

/-- `USART_Getc` -/
def getc (u : Usart) : UInt8 × Usart :=
  if u.rxptr ≠ u.rdptr then (u.rxbuf u.rdptr, { u with rdptr := (u.rdptr + 1) % rxBufLen })
  else (0, u)

/-- `USART_Peekc` -/
def peekc (u : Usart) : UInt8 := if u.rxptr ≠ u.rdptr then u.rxbuf u.rdptr else 0

/-- `USART_CharAvail` -/
def charAvail (u : Usart) : ℕ := (rxBufLen + u.rxptr - u.rdptr) % rxBufLen

/-- `USART_PeekBuf`: how many bytes were copied, and the buffer. -/
def peekBuf (u : Usart) (buf : ℕ → UInt8) (maxlen : ℕ) : ℕ × (ℕ → UInt8) :=
  let n := min (charAvail u) maxlen
  (n, fun i => if i < n then u.rxbuf ((u.rdptr + i) % rxBufLen) else buf i)

/-- `USART_GetBuf`: the bytes are taken when they are those of the buffer. -/
def getBuf (u : Usart) (buf : ℕ → UInt8) (len : ℕ) : Bool × Usart :=
  if charAvail u < len then (false, u)
  else if ∀ i < len, u.rxbuf ((u.rdptr + i) % rxBufLen) = buf i then
    (true, { u with rdptr := (u.rdptr + len) % rxBufLen })
  else (false, u)

end Osd
