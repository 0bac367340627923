import EntityService.Tasks.EncodingUploading

/-! The views that accept uploads. They check a request, store its metadata and schedule the
background task that ingests the encodings. -/
namespace EntityService.Views
open Lib

/-- The element `encodings` of an upload: inline, or an object with a `file`. -/
inductive Encodings
  | array (encodings : List JsonScalar)
  | external (file : ExternalFile)
deriving DecidableEq, Repr

/-- The element `blocks` of an upload: a mapping from encoding ids to lists of block ids,
or an object with a `file`. -/
inductive Blocks
  | map (blocks : Dict (List Char) (List JsonScalar))
  | external (file : ExternalFile)

/-- The top-level elements of an uploaded JSON document. -/
structure ClkJson where
  clks : Option (List JsonScalar)
  clknblocks : Option (List (List JsonScalar))
  encodings : Option Encodings
  blocks : Option Blocks

/-- The condition of the expression `'file' in encodings`, for a list as for an object. -/
def Encodings.hasFile : Encodings → Bool
  | .array encodings => .str "file".toList ∈ encodings
  | .external _ => true

def Encodings.file : Encodings → Except Error ExternalFile
  | .array _ => .error .typeError
  | .external file => .ok file

def Blocks.hasFile : Blocks → Bool
  | .map blocks => "file".toList ∈ blocks.keys
  | .external _ => true

def Blocks.file : Blocks → Except Error ExternalFile
  | .map _ => .error .typeError
  | .external file => .ok file

/-- The message of the `ValueError` when an upload does not fit the project. -/
def abortIfInconsistentUpload (usesBlocking : Bool) (clkJson : ClkJson) : Except String Unit :=
  if usesBlocking ∧ clkJson.clknblocks.isNone ∧ clkJson.blocks.isNone then
    .error "Expecting blocking information. Either in \"blocks\" or \"clksnblocks\""
  else if ¬usesBlocking ∧ (clkJson.clknblocks.isSome ∨ clkJson.blocks.isSome) then
    .error "Blocking has been disabled for this project, but received blocking information"
  else if clkJson.clknblocks.isNone ∧ clkJson.encodings.isNone ∧ clkJson.clks.isNone then
    .error "Missing encoding information"
  else .ok ()

/-- The code points of the zeros of the scripts in Unicode 13, the version of Python 3.9. The other
digits of a script follow its zero. -/
def decimalZeros : List ℕ :=
  [0x30, 0x660, 0x6F0, 0x7C0, 0x966, 0x9E6, 0xA66, 0xAE6, 0xB66, 0xBE6, 0xC66, 0xCE6, 0xD66,
    0xDE6, 0xE50, 0xED0, 0xF20, 0x1040, 0x1090, 0x17E0, 0x1810, 0x1946, 0x19D0, 0x1A80, 0x1A90,
    0x1B50, 0x1BB0, 0x1C40, 0x1C50, 0xA620, 0xA8D0, 0xA900, 0xA9D0, 0xA9F0, 0xAA50, 0xABF0,
    0xFF10, 0x104A0, 0x10D30, 0x11066, 0x110F0, 0x11136, 0x111D0, 0x112F0, 0x11450, 0x114D0,
    0x11650, 0x116C0, 0x11730, 0x118E0, 0x11950, 0x11C50, 0x11D50, 0x11DA0, 0x16A60, 0x16B50,
    0x1D7CE, 0x1D7D8, 0x1D7E2, 0x1D7EC, 0x1D7F6, 0x1E140, 0x1E2F0, 0x1E950, 0x1FBF0]

def decimalDigit (c : Char) : Option ℕ :=
  (decimalZeros.find? fun z => z ≤ c.toNat ∧ c.toNat < z + 10).map fun z => c.toNat - z

/-- The white space that `int` ignores around a number. -/
def intSpace (c : Char) : Bool :=
  c.toNat ∈ [0x9, 0xA, 0xB, 0xC, 0xD, 0x20, 0x85, 0xA0, 0x1680, 0x2000, 0x2001, 0x2002, 0x2003,
    0x2004, 0x2005, 0x2006, 0x2007, 0x2008, 0x2009, 0x200A, 0x2028, 0x2029, 0x202F, 0x205F,
    0x3000]

def stripIntSpace (text : List Char) : List Char :=
  ((text.dropWhile intSpace).reverse.dropWhile intSpace).reverse

/-- The digits of an integer literal, with single underscores between them. -/
def parseDigits (afterDigit : Bool) (value : ℕ) : List Char → Option ℕ
  | [] => if afterDigit then some value else none
  | c :: cs =>
    match decimalDigit c with
    | some digit => parseDigits true (10 * value + digit) cs
    | none => if c = '_' ∧ afterDigit then parseDigits false value cs else none

/-- The number of digits up to which `int` converts a text, from version 3.9.14 of Python on. -/
def MAX_STR_DIGITS : ℕ := 4300

/-- The number that the digits of an integer literal without its sign stand for. -/
def parseMagnitude (cs : List Char) : Except Error ℕ := do
  ensure ((cs.filter fun c => c ≠ '_').length ≤ MAX_STR_DIGITS) .valueError
  orRaise (parseDigits false 0 cs) .valueError

def parseInt (text : List Char) : Except Error ℤ :=
  match stripIntSpace text with
  | '-' :: cs => do return -(← parseMagnitude cs)
  | '+' :: cs => do return ((← parseMagnitude cs : ℕ) : ℤ)
  | cs => do return ((← parseMagnitude cs : ℕ) : ℤ)

/-- The element of a list at an index, which counts from the end when it is negative. -/
def pyIndex {α : Type} (l : List α) (i : ℤ) : Except Error α :=
  let i := if i < 0 then i + l.length else i
  if i < 0 then .error .indexError else orRaise l[i.toNat]? .indexError

/-- Convert from the schema with separate encodings and blocks to the `clknblocks` format.
The keys of an object with a `file` are no encoding ids. -/
def convertEncodingUploadToClknblock (encodings : List JsonScalar) :
    Option Blocks → Except Error (List (List JsonScalar))
  | some (.map blocks) => blocks.entries.mapM fun p => do
    let encoding ← pyIndex encodings (← parseInt p.1)
    return encoding :: p.2
  | some (.external _) => .error .valueError
  | none => .ok (encodings.map fun encoding => [encoding, .str ['1']])

def convertClksToClknblocks (clks : List JsonScalar) : List (List JsonScalar) :=
  clks.map fun encoding => [encoding, .str ['1']]

def objectStoreUploadPath (projectId : ProjectId) (dpId : DpId) : List Char :=
  projectId.toList ++ '/' :: decimal dpId

def checkObjectPathAllowed (projectId : ProjectId) (dpId : DpId) (objectName : List Char) :
    Except Error Unit :=
  ensure ((objectStoreUploadPath projectId dpId).isPrefixOf objectName)
    (.problem 403 "Provided object store path is not allowed")

/-- The block names after the encoding of an entry. -/
def entryBlocks : List JsonScalar → Except Error (List JsonScalar)
  | [] => .error .valueError
  | _ :: blocks => .ok blocks

/-- The external files of an upload, checked to lie in the provider's part of the store. -/
def externalUpload (projectId : ProjectId) (dpId : DpId) (encodings : Encodings) :
    Option Blocks → Except Error Job
  | none => do
    let file ← encodings.file
    checkObjectPathAllowed projectId dpId file.path
    return .pullExternalDataEncodingsOnly file
  | some blocks => do
    let file ← encodings.file
    checkObjectPathAllowed projectId dpId file.path
    ensure blocks.hasFile .notImplementedError
    let blocksFile ← blocks.file
    checkObjectPathAllowed projectId dpId blocksFile.path
    return .pullExternalData file blocksFile

/-- The entries of an inline upload in the `clknblocks` format. -/
def inlineEntries (usesBlocking : Bool) (clkJson : ClkJson) :
    Except Error (List (List JsonScalar)) := do
  match clkJson.encodings with
  | some encodings =>
    let entries ← match encodings with
      | .array encodings => convertEncodingUploadToClknblock encodings clkJson.blocks
      | .external _ => .error .typeError
    ensure (1 ≤ entries.length) (.problem 400 "Missing CLKs information")
    return entries
  | none =>
    match usesBlocking, clkJson.clks with
    | false, some clks =>
      ensure (1 ≤ clks.length) (.problem 400 "Missing CLKs information")
      return convertClksToClknblocks clks
    | _, _ =>
      let entries ← orRaise clkJson.clknblocks .keyError
      ensure (1 ≤ entries.length) (.problem 400 "Missing CLKs information")
      return entries

/-- Count the blocks of inline encodings by their hashed names, quarantine the entries and
store the metadata. -/
def quarantineUpload (settings : Settings) (dpId : DpId) (entries : List (List JsonScalar))
    (receiptToken : Token) : Task Job := do
  let blocks ← Action.lift (entries.mapM entryBlocks)
  let blockSizes := Dict.tally (blocks.flatten.map (hashBlockName settings.blake2b))
  let filename := RAW_FILENAME_FMT receiptToken
  Action.modify fun w => { w with quarantine := w.quarantine.set filename entries }
  transaction fun db => do
    let db ← db.insertEncodingMetadata filename dpId receiptToken entries.length
      blockSizes.keys.length
    db.insertBlockingMetadata dpId (blockSizes.entries.map fun b => (b.1, (b.2 : ℤ)))
  return .handleRawUpload

/-- Accept an upload in one of several formats and return the task that ingests it. -/
def handleEncodingUploadJson (settings : Settings) (projectId : ProjectId) (dpId : DpId)
    (clkJson : ClkJson) (receiptToken : Token) (usesBlocking : Bool) : Task Job := do
  match abortIfInconsistentUpload usesBlocking clkJson with
  | .error message => Action.raise (.problem 403 message)
  | .ok () =>
    match clkJson.encodings with
    | some encodings =>
      if encodings.hasFile then
        Action.lift (externalUpload projectId dpId encodings clkJson.blocks)
      else
        let entries ← Action.lift (inlineEntries usesBlocking clkJson)
        quarantineUpload settings dpId entries receiptToken
    | none =>
      let entries ← Action.lift (inlineEntries usesBlocking clkJson)
      quarantineUpload settings dpId entries receiptToken

def setUploadState (dpId : DpId) (state : UploadedState) : Task Unit :=
  transaction fun db => .ok (db.setDataproviderUploadState dpId state)

/-- The upload of a JSON document by a provider that holds the upload lock. The result is the
task it schedules and whether it schedules a check for runs that can be executed. -/
def projectClksPost (settings : Settings) (projectId : ProjectId) (dpId : DpId)
    (clkJson : ClkJson) (receiptToken : Token) (usesBlocking : Bool) : Task (Job × Bool) := do
  let job ← (handleEncodingUploadJson settings projectId dpId clkJson receiptToken
    usesBlocking).handle fun
    | .problem status detail => do
      setUploadState dpId .notStarted
      Action.raise (.problem status detail)
    | _ => do
      setUploadState dpId .error
      Action.raise (.problem 500 "Sorry, the server couldn't handle that request")
  setUploadState dpId .done
  let check ← Tasks.scheduleCheck projectId false
  return (job, check)

structure BinaryHeaders where
  hashCount : Option (List Char)
  hashSize : Option (List Char)
deriving DecidableEq, Repr

def getHeaderInt (header : String) (text : List Char) (min : ℤ) (max : Option ℤ) :
    Except Error ℤ :=
  let invalid := Error.problem 400 ("Invalid value for " ++ header ++ " header")
  match parseInt text with
  | .error _ => .error invalid
  | .ok value => do
    ensure (min ≤ value) invalid
    ensure (∀ bound ∈ max, value ≤ bound) invalid
    return value

def checkBinaryUploadHeaders (settings : Settings) (headers : BinaryHeaders) :
    Except Error (ℤ × ℤ) := do
  let missing := Error.problem 400 "Binary upload requires 'Hash-Count' and 'Hash-Size' headers"
  let sizeText ← orRaise headers.hashSize missing
  let countText ← orRaise headers.hashCount missing
  let size ← getHeaderInt "Hash-Size" sizeText settings.minEncodingSize settings.maxEncodingSize
  let count ← getHeaderInt "Hash-Count" countText 1 none
  return (count, size)

/-- The part of a binary upload after which the data is stored. -/
def handleBinaryUpload (settings : Settings) (projectId : ProjectId) (dpId : DpId)
    (headers : BinaryHeaders) (data : Bytes) (receiptToken : Token) : Task Unit := do
  let w ← Action.get
  let (count, size) ← Action.lift (checkBinaryUploadHeaders settings headers)
  Action.lift (ensure (w.db.getProjectSchemaEncodingSize projectId ∈ [none, some size])
    (.problem 400 "Upload 'Hash-Size' doesn't match project settings"))
  let convertedStream ← Action.lift (includeEncodingIdInBinaryStream data size count)
  Action.lift (ensure (data.length = size * count) (.problem 400
    "Uploaded data did not match the expected size. Check request headers are correct"))
  (Tasks.uploadClkDataBinary settings dpId convertedStream receiptToken count size).handle fun
    | .valueError => Action.raise (.problem 400
      "Uploaded data did not match the expected size. Check request headers are correct.")
    | e => Action.raise e

/-- The upload of a binary document by a provider that holds the upload lock. -/
def projectBinaryclksPost (settings : Settings) (projectId : ProjectId) (dpId : DpId)
    (headers : BinaryHeaders) (data : Bytes) (receiptToken : Token) : Task Bool := do
  (handleBinaryUpload settings projectId dpId headers data receiptToken).handle fun e => do
    setUploadState dpId .error
    Action.raise e
  setUploadState dpId .done
  Tasks.scheduleCheck projectId false

end EntityService.Views
