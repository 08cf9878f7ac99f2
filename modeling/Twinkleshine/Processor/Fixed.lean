import Twinkleshine.Constants
import Twinkleshine.ExtendedError
import Twinkleshine.Strtol

/-!
# Fixed responses

Reference: `processor_fixed_failsafe` in `source/processor/processor.c` and the
`processor_fixed_*_failsafe` of the protocols. They are generated very fast and without errors.
-/

namespace Twinkleshine

/-! ## Texts -/

/-- `%u` -/
def decimal (n : ℕ) : List UInt8 := (Nat.toDigits 10 (n % uintModulus)).map fun c => c.toNat.toUInt8

/-- The number that is printed. -/
theorem decimal_spec (n : ℕ) :
    decimal n ≠ [] ∧ (decimal n).all isDecimal = true ∧ digitsNumber (decimal n) = n % uintModulus :=
  toDigits_bytes (n % uintModulus)

def crlf : List UInt8 := [13, 10]

/-- `FAKE_ENDLINE` of Gopher. -/
def fakeEndline : List UInt8 := ascii "\tfake\t(NULL)\t0\r\n\r\n"

/-- `http_template_error` -/
def httpTemplateError (status : List UInt8) (contentLength : ℕ) (connection : List UInt8) :
    List UInt8 :=
  ascii "HTTP/1.1 " ++ status ++ crlf ++
  ascii "Server: Twinkleshine\r\n" ++
  ascii "Cache-Control: no-cache, no-store, must-revalidate\r\n" ++
  ascii "Content-Type: text/html; charset=UTF-8\r\n" ++
  ascii "Content-Length: " ++ decimal contentLength ++ crlf ++
  ascii "Connection: " ++ connection ++ crlf ++
  crlf

/-- `html_template_error_page` -/
def htmlTemplateErrorPage (status explanation : List UInt8) : List UInt8 :=
  ascii "<p>" ++ status ++ ascii "</p>\n" ++ ascii "<p>" ++ explanation ++ ascii "</p>\n"

def htmlOpen : List UInt8 :=
  ascii "<!DOCTYPE html>\n" ++
  ascii "<html>\n" ++
  ascii "<head>\n" ++
  ascii "    <meta charset=\"utf-8\">\n" ++
  ascii "    <meta name=\"viewport\" content=\"width=device-width, initial-scale=1\">\n" ++
  ascii "    <title>My 8-bit soul</title>\n" ++
  ascii "</head>\n" ++
  ascii "<body>\n"

def htmlClose : List UInt8 :=
  ascii "</body>\n" ++
  ascii "</html>\n"

/-- `processor_module_initialize_one`: the text of a fixed HTTP response. -/
def processorModuleInitializeOne (status explanation : List UInt8) : List UInt8 :=
  let contentSize := htmlOpen.length +
    (htmlTemplateErrorPage [] []).length + status.length + explanation.length + htmlClose.length
  httpTemplateError status contentSize (ascii "close") ++ htmlOpen ++
    htmlTemplateErrorPage status explanation ++ htmlClose

/-! ## The texts of the protocols -/

/-- The explanation of a fixed response, which is the same in all protocols. -/
def FixedResponse.explanation : FixedResponse → List UInt8
  | maxClients => ascii "Maximum number of clients reached"
  | maxMemory => ascii "Maximum memory usage reached"
  | maxUtilization => ascii "Maximum processor utilization reached"
  | unknown => ascii "Unknown error"
  | requestInvalid => ascii "Parser error"
  | maxAvailableRequestStream => ascii "Received too large chunk of data"
  | maxRequestHeaderSize => ascii "Actual header size is too large"
  | maxRequestContentSize => ascii "Promised content size is too large"
  | maxIncompleteRequestTime => ascii "Request incomplete for too long"

/-- The status lines of `processor_module_initialize_http`. -/
def FixedResponse.httpStatus : FixedResponse → List UInt8
  | maxClients | maxMemory | maxUtilization => ascii "503 Service Unavailable"
  | unknown => ascii "500 Internal Server Error"
  | requestInvalid => ascii "400 Bad Request"
  | maxAvailableRequestStream => ascii "429 Too Many Requests"
  | maxRequestHeaderSize => ascii "431 Request Header Fields Too Large"
  | maxRequestContentSize => ascii "413 Content Too Large"
  | maxIncompleteRequestTime => ascii "408 Request Timeout"

/-- `processor_fixed_http_failsafe` -/
def processorFixedHttpFailsafe (fixed : FixedResponse) : List UInt8 :=
  processorModuleInitializeOne fixed.httpStatus fixed.explanation

/-- `processor_fixed_gopher_failsafe` -/
def processorFixedGopherFailsafe (fixed : FixedResponse) : List UInt8 :=
  ascii "3" ++ fixed.explanation ++ fakeEndline

/-- `processor_fixed_finger_failsafe` -/
def processorFixedFingerFailsafe (fixed : FixedResponse) : List UInt8 := fixed.explanation ++ crlf

/-- The status codes of `processor_fixed_gemini_failsafe`. -/
def FixedResponse.geminiStatus : FixedResponse → List UInt8
  | maxClients | maxMemory | maxUtilization => ascii "41 "
  | unknown => ascii "42 "
  | _ => ascii "59 "

/-- `processor_fixed_gemini_failsafe` -/
def processorFixedGeminiFailsafe (fixed : FixedResponse) : List UInt8 :=
  fixed.geminiStatus ++ fixed.explanation ++ crlf

/-- The status codes of `processor_fixed_spartan_failsafe`. -/
def FixedResponse.spartanStatus : FixedResponse → List UInt8
  | maxClients | maxMemory | maxUtilization | unknown => ascii "5 "
  | _ => ascii "4 "

/-- `processor_fixed_spartan_failsafe` -/
def processorFixedSpartanFailsafe (fixed : FixedResponse) : List UInt8 :=
  fixed.spartanStatus ++ fixed.explanation ++ crlf

/-- `processor_fixed_nex_failsafe` -/
def processorFixedNexFailsafe (fixed : FixedResponse) : List UInt8 :=
  processorFixedFingerFailsafe fixed

/-- `processor_fixed_text_failsafe` -/
def processorFixedTextFailsafe (fixed : FixedResponse) : List UInt8 :=
  ascii "40 " ++ fixed.explanation ++ crlf

/-- `processor_fixed_guppy_failsafe` -/
def processorFixedGuppyFailsafe (fixed : FixedResponse) : List UInt8 :=
  ascii "4 " ++ fixed.explanation ++ crlf

/-- The text of a fixed response in the protocol of an accepting socket. -/
def failsafeText (acceptingSocket : ℕ) (fixed : FixedResponse) : List UInt8 :=
  match acceptingSocketProtocol acceptingSocket with
  | .http | .https => processorFixedHttpFailsafe fixed
  | .gopher => processorFixedGopherFailsafe fixed
  | .finger => processorFixedFingerFailsafe fixed
  | .gemini => processorFixedGeminiFailsafe fixed
  | .spartan => processorFixedSpartanFailsafe fixed
  | .nex => processorFixedNexFailsafe fixed
  | .text => processorFixedTextFailsafe fixed
  | .guppy => processorFixedGuppyFailsafe fixed

/-- `processor_fixed_failsafe`: the `default` of every `switch` is the text of `FR_UNKNOWN`. -/
def processorFixedFailsafe (acceptingSocket fixed : ℕ) : List UInt8 :=
  failsafeText acceptingSocket ((FixedResponse.ofCode fixed).getD .unknown)

end Twinkleshine
