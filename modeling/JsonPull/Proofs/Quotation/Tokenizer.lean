import JsonPull.Proofs.Quotation.Requests
import JsonPull.Proofs.Quotation.Stray

/-! # Calls that read a string

A string is read as the text that it denotes, as a value and as the name of a property, however the
source splits its bytes. A string with a stray backslash is not read at all. -/

namespace JsonPull

open JsonPull.Json JsonPull.Quotation

variable {settings : Settings} {stream rest body blank before more bytes : List UInt8} {s : State}
  {pos : Nat} {quote b : UInt8} {items : List Item} {request : Request} {c : Call}

namespace Reading

/-! ## Values -/

/-- A name in quotes is published with its colon. -/
def Named (settings : Settings) (stream rest : List UInt8) (s : State) (name : String) (s' : State)
    (pos' : Nat) : Prop :=
  (s.publishName (settings.intern name)).Same s' ∧ Ahead stream pos' rest

end Reading

open Reading

namespace Tokenizer

variable {t : Tokenizer}

/-- A read finds the name of a property. -/
def ReadsName (t : Tokenizer) (name : String) : Prop :=
  (t.call .read).1 = .ok (.found true) ∧ (t.call .read).2.token = .propertyName ∧
    (t.call .read).2.value? = some (.string name)

theorem Sound.reads_string (h : t.Sound stream) (hexpects : t.nextPhase.expectsValue = true)
    (hdates : c.request.dates t.options.settings = .none) (hbytes : c.request ≠ .bytes)
    (hconversion : c.request.conversion? = none) (hquote : quote = 0x22 ∨ quote = 0x27)
    (hbody : Spells quote items body) (hfaces : t.Faces stream (quote :: (body ++ quote :: rest))) :
    t.Reads c (some (c.answer (some (.string (Quotation.text items))) c.done, .string,
      .string (Quotation.text items))) := by
  refine h.reads_text hexpects hbytes hconversion hquote hbody hfaces ?_
  rw [hdates]
  rfl

end Tokenizer

end JsonPull
