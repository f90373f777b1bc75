import SteepSystem.Ftstreams.Pieces
import SteepSystem.Ftstreams.Readback

/-!
What one side gives out and the other takes in: the pieces of a download, sent as the buffers of an
upload, bring the markers and properties that have been written.
-/

namespace SteepSystem.Ftstreams

open SteepSystem.ExtBuffer SteepSystem.Lib.Bytes SteepSystem.Lib.Feeds SteepSystem.Lib.Feeds.Reader

variable {x : Setup} {option : StringOption} {cpid : UInt16}

/-! ### The definition of a property -/

/-- The type that a property is read with. -/
def typeRead (propid writeType : UInt16) : UInt16 :=
  if propid = 0x4017 then 0x0102 else if writeType = 0x84B0 then 0x001F else writeType

variable {propid proptype writeType : UInt16} {pvalue : PropVal} {atoms : List Atom}
  {propdef : Bytes}

variable (x option cpid)

/-- What comes of an element; a property with a `SVREID` is not written. -/
def delivered : Element → Option Element
  | .marker marker => some (.marker marker)
  | .propval (.mk proptag pvalue) =>
    if proptypeOf proptag = 0x00FB then none
    else
      let (proptype, writeType, pvalue) := Producer.valueForm x option cpid (.mk proptag pvalue)
      some (.propval (.mk
        (proptagOf (propidOf proptag) (typeRead (propidOf proptag) writeType))
        (valueRead x proptype pvalue)))

variable {x option cpid} {e : Element} {es : List Element}

/-- At the end of an element the parser has read it or waits for more. -/
lemma Holds.parsed {more : Bool} {e' : Element} {new : List Atom}
    (h : Holds more (readElement x) e' new) :
    ∃ as rest, Parsed (readElement x) (text new) as rest := by
  cases more with
  | false =>
    have hread := h.reads [] nofun
    rw [List.append_nil] at hread
    exact ⟨[e'], [], .item hread (.wait (readElement_nil x))⟩
  | true =>
    have hwait := h.waits _ h.pos le_rfl (fun _ => rfl) (.between .whole)
    rw [List.take_length] at hwait
    exact ⟨[], _, .wait hwait⟩

variable {σ : Type} {record : σ → Element → Option σ}

end SteepSystem.Ftstreams
