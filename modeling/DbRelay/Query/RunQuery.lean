import DbRelay.Json.Writer
import DbRelay.Params
import DbRelay.Wire.Client

/-!
# The response to a query

`dbrelay_db_run_query` with all that it writes into the response.  What the calls
that it makes return is an argument, `Answers`.  The effects of these calls are in
`DbRelay.Query.Resources`.

* The writer of the response is opened before the request is checked, and each exit
  closes it by hand.
* On an error `dbRestartJson` throws the text away if the request has a `js_error`,
  and starts again under that name.
-/

namespace DbRelay

open JsonWriter Decimal

/-- What the calls return. -/
structure Answers where
  /-- `dbrelay_wait_for_connection` returns a connection. -/
  connection : Bool
  /-- `dbrelay_conn_initialize`, with `none` for -1. -/
  helperPid : Option Nat := none
  /-- `dbrelay_conn_send_request`: the text and `have_error`, with `none` for a number
  that was written past `tmp`. -/
  reply : Option (CString × Nat) := some (.empty, 0)
  /-- `api->connected`. -/
  connected : Bool := false
  /-- `api->error`, with `none` if it has no text: after a failed login `conn->db` is
  `NULL`, which `dbrelay_mysql_error` and `dbrelay_odbc_error` dereference. -/
  error : Option CString := some .empty
  /-- `dbrelay_exec_query`, with `none` for `NULL`. -/
  result : Option CString := none

/-- The text of the reply. -/
def Answers.replyText (answers : Answers) : CString := (answers.reply.map Prod.fst).getD .empty

/-- `have_error`. -/
def Answers.haveError (answers : Answers) : Nat := (answers.reply.map Prod.snd).getD 0

/-- The size of `error_string`. -/
def errorSz : Nat := 500

/-- `dbrelay_copy_string` to the last `room` bytes of `error_string`. -/
def copyError (src : CString) (room : Nat) : List UInt8 :=
  if src.bytes.length < room then src.bytes else src.bytes.take (room - 1)

/-! ## The parts of the document -/

/-- `json_add_string`, if the field is set. -/
def addIfSet {size : Nat} (json : JsonWriter) (key : List UInt8) (field : CharBuf size) :
    JsonWriter :=
  if field.isSet then json.addString key field.bytes else json

/-- `dbrelay_append_request_json`. -/
def appendRequestJson (json : JsonWriter) (request : Request) : JsonWriter :=
  let json := (json.addKey (ascii "request")).newObject
  let json := addIfSet json (ascii "query_tag") request.queryTag
  let json := json.addString (ascii "sql_server") request.sqlServer.bytes
  let json := json.addString (ascii "sql_user") request.sqlUser.bytes
  let json := addIfSet json (ascii "sql_port") request.sqlPort
  let json := json.addString (ascii "sql_database") request.sqlDatabase.bytes
  json.endObject

/-- The parameters from number `i` on. -/
def addParams (json : JsonWriter) (i : Nat) : List (List UInt8) → JsonWriter
  | [] => json
  | param :: params =>
    addParams (json.addString (ascii "param" ++ decimal i) param) (i + 1) params

/-- `dbrelay_append_log_json`.  It ends the document, too. -/
def appendLogJson (json : JsonWriter) (request : Request) (params : List (List UInt8))
    (errorString : List UInt8) : JsonWriter :=
  let json := (json.addKey (ascii "log")).newObject
  let json :=
    if request.flags &&& flagEchosql ≠ 0 then json.addString (ascii "sql") request.sqlText
    else json
  let json := if errorString ≠ [] then json.addString (ascii "error") errorString else json
  (addParams json 0 params).endObject.endObject

/-- `dbrelay_write_json_log`.  It ends the document, too. -/
def writeJsonLog (json : JsonWriter) (request : Request) (errorString : List UInt8) :
    JsonWriter :=
  let json := (json.addKey (ascii "log")).newObject
  let json :=
    match request.sql with
    | some sql => json.addString (ascii "sql") sql.bytes
    | none => json
  (json.addString (ascii "error") errorString).endObject.endObject

/-- `dbrelay_db_restart_json`. -/
def dbRestartJson (request : Request) (json : JsonWriter) : JsonWriter :=
  if request.jsError.isSet then
    let json := (JsonWriter.new false).addCallback request.jsError.bytes
    appendRequestJson json.newObject request
  else json

/-- The callback is closed if either name is set. -/
def endResponse (request : Request) (json : JsonWriter) : List UInt8 :=
  (if request.jsCallback.isSet || request.jsError.isSet then json.endCallback else json).toString

/-! ## The query -/

/-- `dbrelay_check_request`. -/
def checkRequest (request : Request) : Bool :=
  request.sql.isSome && request.sqlServer.isSet && request.sqlUser.isSet

/-- The writer up to the check of the request. -/
def startResponse (request : Request) : JsonWriter :=
  let json := JsonWriter.new (decide (request.flags &&& flagPp ≠ 0))
  let json :=
    if request.jsCallback.isSet then json.addCallback request.jsCallback.bytes else json
  appendRequestJson json.newObject request

/-- A text that the connector or `dbrelay_exec_query` gave. -/
def insertData (json : JsonWriter) (ret : CString) : JsonWriter :=
  (json.addJson (ascii ", ")).addJson ret.bytes

/-- A named connection: the writer and `error_string` after the request was sent. -/
def runNamed (request : Request) (answers : Answers) (json : JsonWriter) :
    Option (JsonWriter × List UInt8) :=
  answers.reply.map fun (ret, haveError) =>
    if haveError ≠ 0 then (dbRestartJson request json, copyError ret errorSz)
    else if !ret.isSet then (json, [])
    else (insertData json ret, [])

/-- The message when no connection came about. -/
def loginError (request : Request) (error : CString) : List UInt8 :=
  if !request.sqlPassword.isSet then
    let message := ascii "Login failed and no password was set, please check.\n"
    message ++ copyError error (errorSz - message.length)
  else if !error.isSet then ascii "Connection failed.\n"
  else copyError error errorSz

/-- An unnamed connection.  `none` is an error that has no text, or one that `strcpy`
writes past the end of `error_string`. -/
def runUnnamed (request : Request) (answers : Answers) (json : JsonWriter) :
    Option (JsonWriter × List UInt8) :=
  if !answers.connected then
    answers.error.map fun error => (dbRestartJson request json, loginError request error)
  else
    match answers.result with
    | none =>
      answers.error.bind fun error =>
        if error.bytes.length < errorSz then some (dbRestartJson request json, error.bytes)
        else none
    | some ret => some (insertData json ret, [])

/-- An exit that writes its own log. -/
def failResponse (request : Request) (json : JsonWriter) (message : List UInt8) : List UInt8 :=
  endResponse request (writeJsonLog json request message)

/-- The text that `dbrelay_db_run_query` returns.  `none` is a write or a read outside
of an object of the program, that of a `NULL` included. -/
def runQuery (magic : CString) (request : Request) (answers : Answers) : Option (List UInt8) :=
  let json := startResponse request
  if !checkRequest request then
    some (failResponse request (dbRestartJson request json)
      (ascii "Not all required parameters submitted."))
  else
    (resolveParams magic request request.sqlText).bind fun _ =>
      if !answers.connection then
        some (failResponse request (dbRestartJson request json)
          (ascii "Couldn't allocate new connection"))
      else if request.named && answers.helperPid.isNone then
        -- It is restarted twice.
        some (failResponse request (dbRestartJson request (dbRestartJson request json))
          (ascii "Couldn't initialize connector"))
      else
        (if request.named then runNamed request answers json
          else runUnnamed request answers json).bind fun (json, errorString) =>
            request.paramList.map fun params =>
              endResponse request (appendLogJson json request params errorString)

end DbRelay
