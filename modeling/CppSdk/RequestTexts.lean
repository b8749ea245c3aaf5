import CppSdk.JsonReading
import CppSdk.JsonRpcImpl

/-!
The text of `sendTransaction` beside that of the generic request. The format puts the strings
between quotation marks as they are and writes the flag as a number, so its text is shorter
than every text of the request: it is never read as the request (`never_read_alike`).
-/
namespace CppSdk.RequestTexts
open CppSdk.ByteString CppSdk.Texts CppSdk.JsonValues CppSdk.JsonReading
open CppSdk.EventParams (Reader Inverts)
open CppSdk.JsonRpcImpl (Environment Client resolve sendTransaction nodeRequest twoSessions)

/-- The value of a request `sendTransaction`, with what stands for its flag. -/
def requestValue (id : Int64) (group name data : Bytes) (flag : Json) : Json :=
  .object [(lit "id",.int id),(lit "jsonrpc",.string (lit "2.0")),(lit "method",.string (lit "sendTransaction")),
    (lit "params",.array [.string group,.string name,.string data,flag])]
/-- The text of the generic request. -/
def genericText (E : Environment) (c : Client) (group node data : Bytes) (requireProof : Bool) : Bytes :=
  (nodeRequest E c (lit "sendTransaction") group node [.string data,.boolean requireProof]).data

/-- The text of `sendTransaction` is valid and is read as that of the generic request. -/
def ReadAlike (R : Reader) (E : Environment) (c : Client) (group node data : Bytes) (requireProof : Bool) : Prop :=
  ∃ read, R.parse (sendTransaction E c group node data requireProof).data = some read ∧
    R.parse (genericText E c group node data requireProof) = some read

variable {R : Reader} {E : Environment} {c : Client} {group node data : Bytes} {requireProof : Bool}

/-- The format is the compact text with a number for the flag and the strings as they are. -/
theorem sendTransaction_data : (sendTransaction E c group node data requireProof).data =
    printValue plain (requestValue c.nextId group (resolve E c group node) data (.int (if requireProof then 1 else 0))) := by
  have first : lit "\x7b\"id\":" = lit "\x7b" ++ plain (lit "id") ++ lit ":" := by decide
  have second : lit ",\"jsonrpc\":\"2.0\",\"method\":\"sendTransaction\",\"params\":[\"" =
      lit "," ++ plain (lit "jsonrpc") ++ lit ":" ++ plain (lit "2.0") ++ lit "," ++ plain (lit "method") ++ lit ":" ++
        plain (lit "sendTransaction") ++ lit "," ++ plain (lit "params") ++ lit ":" ++ lit "[" ++ lit "\"" := by decide
  have between : lit "\",\"" = lit "\"" ++ lit "," ++ lit "\"" := by decide
  have last : lit "\"," = lit "\"" ++ lit "," := by decide
  have close : lit "]\x7d" = lit "]" ++ lit "\x7d" := by decide
  have number : (if requireProof then lit "1" else lit "0") = intText (Int64.toInt (if requireProof then 1 else 0)) := by
    cases requireProof <;> decide
  simp only [sendTransaction,first,second,between,last,close,number,requestValue,printValue,printMembers,printElements,
    List.intercalate,List.intersperse,List.flatten_cons,List.flatten_nil,plain,List.append_assoc,List.append_nil]

/-- The text of a request has the flag at one place. -/
theorem text_around_flag (id : Int64) (group name data : Bytes) :
    ∃ before after, ∀ flag, printValue plain (requestValue id group name data flag) = before ++ printValue plain flag ++ after := by
  refine ⟨lit "\x7b" ++ plain (lit "id") ++ lit ":" ++ intText id.toInt ++ lit "," ++ plain (lit "jsonrpc") ++ lit ":" ++
    plain (lit "2.0") ++ lit "," ++ plain (lit "method") ++ lit ":" ++ plain (lit "sendTransaction") ++ lit "," ++
    plain (lit "params") ++ lit ":" ++ lit "[" ++ plain group ++ lit "," ++ plain name ++ lit "," ++ plain data ++ lit ",",
    lit "]" ++ lit "\x7d",fun flag => ?_⟩
  simp only [requestValue,printValue,printMembers,printElements,List.intercalate,List.intersperse,List.flatten_cons,
    List.flatten_nil,List.append_assoc,List.append_nil]

/-- The text of `sendTransaction` is shorter than every text of the request. -/
theorem length_sendTransaction : (sendTransaction E c group node data requireProof).data.length <
    (printValue plain (requestValue c.nextId group (resolve E c group node) data (.boolean requireProof))).length := by
  obtain ⟨before,after,text⟩ := text_around_flag c.nextId group (resolve E c group node) data
  have number : (printValue plain (.int (if requireProof then 1 else 0))).length = 1 := by cases requireProof <;> decide
  have word : 1 < (printValue plain (.boolean requireProof)).length := by cases requireProof <;> decide
  rw [sendTransaction_data,text,text]
  simp only [List.length_append]
  omega

private theorem genericText_eq (writes : E.write = R.write) : genericText E c group node data requireProof =
    R.write (requestValue c.nextId group (resolve E c group node) data (.boolean requireProof)) := by
  simp only [genericText,nodeRequest,JsonRpcImpl.toJson,writes]
  rfl

/-- No request of `sendTransaction` is read as the generic request. -/
theorem never_read_alike (writes : E.write = R.write) (noShorter : NoShorter R)
    (inverts : Inverts R (requestValue c.nextId group (resolve E c group node) data (.boolean requireProof))) :
    ¬ReadAlike R E c group node data requireProof := by
  rintro ⟨read,parsed,generic⟩
  obtain ⟨again,parsedAgain,same⟩ := inverts
  rw [genericText_eq writes,parsedAgain,Option.some.injEq] at generic
  subst generic
  have long := noShorter _ _ _ (by rfl) same parsed
  exact Nat.not_le.mpr length_sendTransaction long

/-- The request of a client for a node, and what its text holds instead. -/
def soughtValue : Json := requestValue 1 (lit "g") (lit "n") (lit "0x") (.boolean true)
def sentValue : Json := requestValue 1 (lit "g") (lit "n") (lit "0x") (.int 1)
/-- Jsoncpp on both. -/
def requestReader : Reader := readerOf [soughtValue,sentValue]
def requestEnvironment : Environment := ⟨1,fun _ _ => (none,none),requestReader.write,fun _ => []⟩

theorem never_read_twoSessions : ¬ReadAlike requestReader requestEnvironment twoSessions (lit "g") (lit "n") (lit "0x") true :=
  never_read_alike rfl (readerOf_noShorter _) (inverts_of_parse (parse_head soughtValue [sentValue]))

/-- The flag is read as a number. -/
theorem flag_is_number :
    ¬∀ (R : Reader) (E : Environment) (c : Client) (group node data : Bytes) (requireProof : Bool),
      R.Documented → E.write = R.write → NoShorter R →
      Inverts R (requestValue c.nextId group (resolve E c group node) data (.boolean requireProof)) →
      ReadAlike R E c group node data requireProof := by
  intro all
  have inverts := inverts_of_parse (parse_head soughtValue [sentValue])
  obtain ⟨read,parsed,generic⟩ := all requestReader requestEnvironment twoSessions (lit "g") (lit "n") (lit "0x") true
    (readerOf_documented _) rfl (readerOf_noShorter _) inverts
  have sought : requestReader.parse (genericText requestEnvironment twoSessions (lit "g") (lit "n") (lit "0x") true) = some soughtValue :=
    parse_head soughtValue [sentValue]
  have sent : requestReader.parse (sendTransaction requestEnvironment twoSessions (lit "g") (lit "n") (lit "0x") true).data =
      some sentValue := by
    rw [sendTransaction_data]
    exact parse_later (by decide) (parse_head sentValue [])
  have same := (parsed.symm.trans sent).symm.trans (generic.symm.trans sought)
  simp [sentValue,soughtValue,requestValue] at same

end CppSdk.RequestTexts
