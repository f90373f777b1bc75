import SteepSystem.ExtBuffer.Pull

/-!
The other structures that `ext_buffer.c` reads: identifiers, property names, sort orders, entry
ids, the arrays of persisted data, time zones and recurrence patterns.
-/

namespace SteepSystem.ExtBuffer

open SteepSystem.Lib.Bytes SteepSystem.Lib.Programs SteepSystem.Lib.Programs.Program

variable (x : Setup)

structure LongTermId where
  guid : Guid
  globalCounter : Block 6
  padding : UInt16

def pullLongTermId : Pull LongTermId := do
  let guid ← pullGuid
  let globalCounter ← pullBlock 6
  let padding ← pullUint16
  pure { guid, globalCounter, padding }

def pullLongTermIdArray : Pull (List LongTermId) := pullSarray pullLongTermId

structure LongTermIdRange where
  min : LongTermId
  max : LongTermId

def pullLongTermIdRang : Pull LongTermIdRange := do
  let min ← pullLongTermId
  let max ← pullLongTermId
  pure { min, max }

def pullProptagArray : Pull (List UInt32) := pullSarray pullUint32

structure PropertyName where
  kind : UInt8
  guid : Guid
  plid : Option UInt32
  pname : Option CString

/-- `KIND_LID` is 0, `KIND_NAME` 1. -/
def pullPropertyName : Pull PropertyName := do
  let kind ← pullUint8
  let guid ← pullGuid
  if kind = 0 then do
    alloc
    let lid ← pullUint32
    pure { kind, guid, plid := some lid, pname := none }
  else if kind = 1 then do
    let nameSize ← pullUint8
    if nameSize < 2 then fail .format
    else do
      let name ← pullWithin nameSize.toNat (pullWstring x)
      pure { kind, guid, plid := none, pname := some name }
  else pure { kind, guid, plid := none, pname := none }

def pullPropnameArray : Pull (List PropertyName) := pullSarray (pullPropertyName x)

def pullPropidArray : Pull (List UInt16) := pullSarray pullUint16

structure PropertyProblem where
  index : UInt16
  proptag : UInt32
  err : UInt32

def pullPropertyProblem : Pull PropertyProblem := do
  let index ← pullUint16
  let proptag ← pullUint32
  let err ← pullUint32
  pure { index, proptag, err }

/-- An array that is allocated for a count of zero too. -/
def pullAllocated {α : Type} (p : Pull α) : Pull (List α) := do
  let count ← pullUint16
  alloc
  replicate p count.toNat

def pullProblemArray : Pull (List PropertyProblem) := pullAllocated pullPropertyProblem

structure Xid where
  guid : Guid
  localId : Bytes

def pullXid (size : UInt8) : Pull Xid :=
  if size < 17 ∨ 24 < size then fail .format
  else do
    let guid ← pullGuid
    let localId ← pullBytes (size.toUInt32 - 16)
    pure { guid, localId }

structure FolderEntryid where
  flags : UInt32
  providerUid : Block 16
  folderType : UInt16
  databaseGuid : Guid
  globalCounter : Block 6
  pad : Block 2

def pullFolderEntryid : Pull FolderEntryid := do
  let flags ← pullUint32
  let providerUid ← pullBlock 16
  let folderType ← pullUint16
  let databaseGuid ← pullGuid
  let globalCounter ← pullBlock 6
  let pad ← pullBlock 2
  pure { flags, providerUid, folderType, databaseGuid, globalCounter, pad }

/-- Both entry ids are announced by their sizes; the first is passed over. -/
def pullExtMovecopyAction : Pull FolderEntryid := do
  let size ← pullUint32
  if size = 0 then fail .format
  else do
    pullAdvance size
    let size ← pullUint32
    if size ≠ 46 then fail .format
    else pullFolderEntryid

structure MessageEntryid where
  flags : UInt32
  providerUid : Block 16
  messageType : UInt16
  folderDatabaseGuid : Guid
  folderGlobalCounter : Block 6
  pad1 : Block 2
  messageDatabaseGuid : Guid
  messageGlobalCounter : Block 6
  pad2 : Block 2

def pullMessageEntryid : Pull MessageEntryid := do
  let flags ← pullUint32
  let providerUid ← pullBlock 16
  let messageType ← pullUint16
  let folderDatabaseGuid ← pullGuid
  let folderGlobalCounter ← pullBlock 6
  let pad1 ← pullBlock 2
  let messageDatabaseGuid ← pullGuid
  let messageGlobalCounter ← pullBlock 6
  let pad2 ← pullBlock 2
  pure { flags, providerUid, messageType, folderDatabaseGuid, folderGlobalCounter, pad1,
         messageDatabaseGuid, messageGlobalCounter, pad2 }

structure ExtReplyAction where
  messageEid : MessageEntryid
  templateGuid : Guid

def pullExtReplyAction : Pull ExtReplyAction := do
  let size ← pullUint32
  if size ≠ 70 then fail .format
  else do
    let messageEid ← pullMessageEntryid
    let templateGuid ← pullGuid
    pure { messageEid, templateGuid }

def pullExtRecipientBlock (depth : ℕ) : Pull RecipientBlock := do
  let reserved ← pullUint8
  let count ← pullUint32
  let ppropval ← pullSome (pullTaggedPropval x depth) count.toNat
  pure (.mk reserved ppropval)

def pullExtForwarddelegateAction (depth : ℕ) : Pull (List RecipientBlock) := do
  let count ← pullUint32
  pullSome (pullExtRecipientBlock x depth) count.toNat

inductive ExtActionData
  | null
  | movecopy (folderEid : FolderEntryid)
  | reply (r : ExtReplyAction)
  | bytes (data : Bytes)
  | bounce (code : UInt32)
  | forwarddelegate (pblock : List RecipientBlock)
  | tag (r : TaggedPropval)

structure ExtActionBlock where
  length : UInt32
  type : UInt8
  flavor : UInt32
  flags : UInt32
  pdata : ExtActionData

def pullExtActionData (depth : ℕ) (type : UInt8) (length : UInt32) : Pull ExtActionData :=
  match ActionType.of type with
  | some .move | some .copy => pullAs pullExtMovecopyAction .movecopy
  | some .reply | some .oofReply => pullAs pullExtReplyAction .reply
  | some .deferAction =>
    -- only one of the two words is taken off
    pullAs (pullBytes (length - 5)) .bytes
  | some .bounce => pullAs pullUint32 .bounce
  | some .forward | some .delegate => pullAs (pullExtForwarddelegateAction x depth) .forwarddelegate
  | some .tag => pullAs (pullTaggedPropval x depth) .tag
  | some .delete | some .markAsRead => pure .null
  | none => fail .badSwitch

def pullExtActionBlock (depth : ℕ) : Pull ExtActionBlock := do
  let length ← pullUint32
  let type ← pullUint8
  let flavor ← pullUint32
  let flags ← pullUint32
  let pdata ← pullExtActionData x depth type length
  pure { length, type, flavor, flags, pdata }

def pullExtRuleActions (depth : ℕ) : Pull (List ExtActionBlock) := do
  let count ← pullUint32
  pullSome (pullExtActionBlock x depth) count.toNat

structure NamedpropertyInfomation where
  ppropid : List UInt16
  ppropname : List PropertyName

def pullNamedpropertyInformation : Pull NamedpropertyInfomation := do
  let count ← pullUint16
  if count = 0 then pure { ppropid := [], ppropname := [] }
  else do
    alloc
    alloc
    let ppropid ← replicate pullUint16 count.toNat
    let size ← pullUint32
    let ppropname ← pullWithin size.toNat (replicate (pullPropertyName x) count.toNat)
    pure { ppropid, ppropname }

def pullProprowSet (depth : ℕ) (pcolumns : List UInt32) : Pull (List PropertyRow) :=
  pullAllocated (pullPropertyRow x depth pcolumns)

structure SortOrder where
  type : UInt16
  propid : UInt16
  tableSort : UInt8

def pullSortOrder : Pull SortOrder := do
  let type ← pullUint16
  if type &&& 0x1000 ≠ 0 ∧ type &&& 0x2000 = 0 then fail .format
  else do
    let propid ← pullUint16
    let tableSort ← pullUint8
    pure { type, propid, tableSort }

structure SortorderSet where
  ccategories : UInt16
  cexpanded : UInt16
  psort : List SortOrder

def pullSortorderSet : Pull SortorderSet := do
  let count ← pullUint16
  let ccategories ← pullUint16
  let cexpanded ← pullUint16
  if count = 0 ∨ count < ccategories ∨ ccategories < cexpanded then fail .format
  else do
    alloc
    let psort ← replicate pullSortOrder count.toNat
    pure { ccategories, cexpanded, psort }

structure TypedString where
  stringType : UInt8
  pstring : Option CString

/-- `STRING_TYPE_*`: none 0, empty 1, of 8 bits 2, reduced 3, of 16 bits 4. -/
def pullTypedString : Pull TypedString := do
  let stringType ← pullUint8
  if stringType = 0 ∨ stringType = 1 then pure { stringType, pstring := none }
  else if stringType = 2 ∨ stringType = 3 then do
    let pstring ← pullString
    pure { stringType, pstring := some pstring }
  else if stringType = 4 then do
    let pstring ← pullWstring x
    pure { stringType, pstring := some pstring }
  else fail .badSwitch

/-- A `PERMISSION_DATA` or a `RULE_DATA`. -/
structure FlaggedPropvals where
  flags : UInt8
  propvals : TpropvalArray

def pullPermissionData (depth : ℕ) : Pull FlaggedPropvals := do
  let flags ← pullUint8
  let propvals ← pullTpropvalArray x depth
  pure { flags, propvals }

def pullRuleData (depth : ℕ) : Pull FlaggedPropvals := do
  let flags ← pullUint8
  let propvals ← pullTpropvalArray x depth
  pure { flags, propvals }

structure AddressbookEntryid where
  flags : UInt32
  providerUid : Block 16
  version : UInt32
  type : UInt32
  px500dn : CString

def pullAddressbookEntryid : Pull AddressbookEntryid := do
  let flags ← pullUint32
  let providerUid ← pullBlock 16
  let version ← pullUint32
  let type ← pullUint32
  let px500dn ← pullString
  pure { flags, providerUid, version, type, px500dn }

structure OneoffEntryid where
  flags : UInt32
  providerUid : Block 16
  version : UInt16
  ctrlFlags : UInt16
  pdisplayName : CString
  paddressType : CString
  pmailAddress : CString

def pullOneoffEntryid : Pull OneoffEntryid := do
  let flags ← pullUint32
  let providerUid ← pullBlock 16
  let version ← pullUint16
  let ctrlFlags ← pullUint16
  let unicode : Bool := ctrlFlags &&& 0x8000 ≠ 0
  let pdisplayName ← pullName x unicode
  let paddressType ← pullName x unicode
  let pmailAddress ← pullName x unicode
  pure { flags, providerUid, version, ctrlFlags, pdisplayName, paddressType, pmailAddress }

/-- Each entry id is followed by what rounds its size up to a multiple of four. -/
def pullOneoffArray : Pull (List OneoffEntryid) := do
  let count ← pullUint32
  alloc
  let bytes ← pullUint32
  pullWithin bytes.toNat (replicate (do
    let bytes ← pullUint32
    let r ← pullWithin bytes.toNat (pullOneoffEntryid x)
    let padLen : UInt8 := (((bytes + 3) &&& ~~~3) - bytes).toUInt8
    pullAdvance padLen.toUInt32
    pure r) count.toNat)

structure Persistelement where
  elementId : UInt16
  pentryId : Option Bytes

/-- `RSF_ELID_HEADER` is 2, `RSF_ELID_ENTRYID` 1. -/
def pullPersistelement : Pull Persistelement := do
  let elementId ← pullUint16
  if elementId = 2 then do
    let tmpSize ← pullUint16
    if tmpSize ≠ 4 then fail .format
    else do
      pullAdvance 4
      pure { elementId, pentryId := none }
  else if elementId = 1 then do
    alloc
    let entryId ← pullBinary x
    pure { elementId, pentryId := some entryId }
  else fail .badSwitch

structure Persistdata where
  persistId : UInt16
  element : Option Persistelement

/-- `PERSIST_SENTINEL` is zero; the second test for it is never met. -/
def pullPersistdata : Pull Persistdata := do
  let persistId ← pullUint16
  let tmpSize ← pullUint16
  if persistId = 0 then
    if tmpSize ≠ 0 then fail .format
    else pure { persistId, element := none }
  else do
    let element ← pullWithin tmpSize.toNat (pullPersistelement x)
    pure { persistId, element := some element }

/-- The items up to the sentinel. The count is of 8 bits, so the bound of 256 in the loop is never
met and a later item takes the place of the one 256 before it. -/
def pullPersistdataArray : ℕ → Pull (List Persistdata)
  | 0 => deeper
  | items + 1 => do
    alloc
    let item ← pullPersistdata x
    if item.persistId = 0 then pure [item]
    else do
      let rest ← pullPersistdataArray items
      pure (item :: rest)

def pullEidArray : Pull (List UInt64) := pullArray pullUint64

structure Systemtime where
  year : Int16
  month : Int16
  dayofweek : Int16
  day : Int16
  hour : Int16
  minute : Int16
  second : Int16
  milliseconds : Int16

def pullSystemtime : Pull Systemtime := do
  let year ← pullInt16
  let month ← pullInt16
  let dayofweek ← pullInt16
  let day ← pullInt16
  let hour ← pullInt16
  let minute ← pullInt16
  let second ← pullInt16
  let milliseconds ← pullInt16
  pure { year, month, dayofweek, day, hour, minute, second, milliseconds }

structure Timezonestruct where
  bias : Int32
  standardbias : Int32
  daylightbias : Int32
  standardyear : Int16
  standarddate : Systemtime
  daylightyear : Int16
  daylightdate : Systemtime

def pullTimezonestruct : Pull Timezonestruct := do
  let bias ← pullInt32
  let standardbias ← pullInt32
  let daylightbias ← pullInt32
  let standardyear ← pullInt16
  let standarddate ← pullSystemtime
  let daylightyear ← pullInt16
  let daylightdate ← pullSystemtime
  pure { bias, standardbias, daylightbias, standardyear, standarddate, daylightyear,
         daylightdate }

structure Tzrule where
  major : UInt8
  minor : UInt8
  reserved : UInt16
  flags : UInt16
  year : Int16
  x : Block 14
  bias : Int32
  standardbias : Int32
  daylightbias : Int32
  standarddate : Systemtime
  daylightdate : Systemtime

/-- The year is read over the flags; `year` is what stands in the memory of the rule. -/
def pullTzrule (year : Int16) : Pull Tzrule := do
  let major ← pullUint8
  let minor ← pullUint8
  let reserved ← pullUint16
  let _ ← pullUint16
  let flags ← pullInt16
  let x ← pullBlock 14
  let bias ← pullInt32
  let standardbias ← pullInt32
  let daylightbias ← pullInt32
  let standarddate ← pullSystemtime
  let daylightdate ← pullSystemtime
  pure { major, minor, reserved, flags := flags.toUInt16, year, x, bias, standardbias,
         daylightbias, standarddate, daylightdate }

structure Timezonedefinition where
  major : UInt8
  minor : UInt8
  reserved : UInt16
  keyname : CString
  prules : List Tzrule

/-- The status of the read of `cbheader` is subtracted where it was to be stored; the next read,
of the same size, fails where that one does. `years` is what the memory that is allocated for the
rules holds. -/
def pullTimezonedefinition (years : ℕ → Int16) : Pull Timezonedefinition := do
  let major ← pullUint8
  let minor ← pullUint8
  let cbheader ← pullUint16
  if 266 < cbheader then fail .format
  else do
    let reserved ← pullUint16
    let cchkeyname ← pullUint16
    if cbheader.toNat ≠ 6 + 2 * cchkeyname.toNat then fail .format
    else do
      let tmpBuff ← pullBytes (cbheader.toUInt32 - 6)
      match x.iconv.toUtf8 tmpBuff with
      | none => fail .charcnv
      | some keyname => do
        alloc
        let crules ← pullUint16
        alloc
        let prules ← forEach (fun i => pullTzrule (years i)) (.range crules.toNat)
        pure { major, minor, reserved, keyname, prules }

/-- `PATTERNTYPESPECIFIC`, with what is set of it. -/
inductive Patterntypespecific
  | day
  | week (weekrecurrence : UInt32)
  | month (dayofmonth : UInt32)
  | monthnth (weekrecurrence recurrencenum : UInt32)

def pullPatterntypespecific (patterntype : UInt16) : Pull Patterntypespecific :=
  if patterntype = 0x0000 then pure .day
  else if patterntype = 0x0001 then do
    let weekrecurrence ← pullUint32
    pure (.week weekrecurrence)
  else if patterntype = 0x0002 ∨ patterntype = 0x0004 ∨ patterntype = 0x000A ∨
      patterntype = 0x000C then do
    let dayofmonth ← pullUint32
    pure (.month dayofmonth)
  else if patterntype = 0x0003 ∨ patterntype = 0x000B then do
    let weekrecurrence ← pullUint32
    let recurrencenum ← pullUint32
    pure (.monthnth weekrecurrence recurrencenum)
  else fail .badSwitch

structure Recurrencepattern where
  readerversion : UInt16
  writerversion : UInt16
  recurfrequency : UInt16
  patterntype : UInt16
  calendartype : UInt16
  firstdatetime : UInt32
  period : UInt32
  slidingflag : UInt32
  patterntypespecific : Patterntypespecific
  endtype : UInt32
  occurrencecount : UInt32
  firstdow : UInt32
  pdeletedinstancedates : List UInt32
  pmodifiedinstancedates : List UInt32
  startdate : UInt32
  enddate : UInt32

def pullRecurrencepattern : Pull Recurrencepattern := do
  let readerversion ← pullUint16
  let writerversion ← pullUint16
  let recurfrequency ← pullUint16
  let patterntype ← pullUint16
  let calendartype ← pullUint16
  let firstdatetime ← pullUint32
  let period ← pullUint32
  let slidingflag ← pullUint32
  let patterntypespecific ← pullPatterntypespecific patterntype
  let endtype ← pullUint32
  let occurrencecount ← pullUint32
  let firstdow ← pullUint32
  let pdeletedinstancedates ← pullArray pullUint32
  let pmodifiedinstancedates ← pullArray pullUint32
  let startdate ← pullUint32
  let enddate ← pullUint32
  pure { readerversion, writerversion, recurfrequency, patterntype, calendartype, firstdatetime,
         period, slidingflag, patterntypespecific, endtype, occurrencecount, firstdow,
         pdeletedinstancedates, pmodifiedinstancedates, startdate, enddate }

/-- A text after the two counts of its length. -/
def pullCountedText : Pull CString := do
  let tmpLen ← pullUint16
  let tmpLen2 ← pullUint16
  if tmpLen.toNat ≠ tmpLen2.toNat + 1 then fail .format
  else do
    alloc
    let text ← pullBytes tmpLen2.toUInt32
    pure (.of text)

structure Exceptioninfo where
  startdatetime : UInt32
  enddatetime : UInt32
  originalstartdate : UInt32
  overrideflags : UInt16
  subject : Option CString
  meetingtype : Option UInt32
  reminderdelta : Option UInt32
  reminderset : Option UInt32
  location : Option CString
  busystatus : Option UInt32
  attachment : Option UInt32
  subtype : Option UInt32
  appointmentcolor : Option UInt32

/-- Each `OVERRIDEFLAG_*` announces one of the fields. -/
def pullExceptioninfo : Pull Exceptioninfo := do
  let startdatetime ← pullUint32
  let enddatetime ← pullUint32
  let originalstartdate ← pullUint32
  let overrideflags ← pullUint16
  let subject ← pullIf (overrideflags &&& 0x0001 ≠ 0) pullCountedText
  let meetingtype ← pullIf (overrideflags &&& 0x0002 ≠ 0) pullUint32
  let reminderdelta ← pullIf (overrideflags &&& 0x0004 ≠ 0) pullUint32
  let reminderset ← pullIf (overrideflags &&& 0x0008 ≠ 0) pullUint32
  let location ← pullIf (overrideflags &&& 0x0010 ≠ 0) pullCountedText
  let busystatus ← pullIf (overrideflags &&& 0x0020 ≠ 0) pullUint32
  let attachment ← pullIf (overrideflags &&& 0x0040 ≠ 0) pullUint32
  let subtype ← pullIf (overrideflags &&& 0x0080 ≠ 0) pullUint32
  let appointmentcolor ← pullIf (overrideflags &&& 0x0100 ≠ 0) pullUint32
  pure { startdatetime, enddatetime, originalstartdate, overrideflags, subject, meetingtype,
         reminderdelta, reminderset, location, busystatus, attachment, subtype,
         appointmentcolor }

structure Changehighlight where
  size : UInt32
  value : UInt32
  preserved : Bytes

def pullChangehighlight : Pull Changehighlight := do
  let size ← pullUint32
  let value ← pullUint32
  if size < 4 then fail .format
  else do
    let preserved ← pullSized (size.toNat - 4)
    pure { size, value, preserved }

/-- A text of 16-bit units after the count of them. The count is doubled in 16 bits, and where
two more bytes take it to zero nothing is converted. -/
def pullCountedWtext : Pull CString := do
  let tmpLen ← pullUint16
  alloc
  let pbuff ← pullBytes (tmpLen * 2).toUInt32
  match if tmpLen * 2 + 2 = 0 then some (.of pbuff) else x.iconv.toUtf8 pbuff with
  | none => fail .charcnv
  | some text => do
    alloc
    pure text

structure Extendedexception where
  changehighlight : Option Changehighlight
  preservedblockee1 : Bytes
  startdatetime : Option UInt32
  enddatetime : Option UInt32
  originalstartdate : Option UInt32
  subject : Option CString
  location : Option CString
  preservedblockee2 : Option Bytes

def pullExtendedexception (writerversion2 : UInt32) (overrideflags : UInt16) :
    Pull Extendedexception := do
  let subject? : Bool := overrideflags &&& 0x0001 ≠ 0
  let location? : Bool := overrideflags &&& 0x0010 ≠ 0
  let changehighlight ← pullIf (0x00003009 ≤ writerversion2) pullChangehighlight
  let preservedblockee1 ← pullExbinary
  let startdatetime ← pullIf (location? ∨ subject?) pullUint32
  let enddatetime ← pullIf (location? ∨ subject?) pullUint32
  let originalstartdate ← pullIf (location? ∨ subject?) pullUint32
  let subject ← pullIf subject? (pullCountedWtext x)
  let location ← pullIf location? (pullCountedWtext x)
  let preservedblockee2 ← pullIf (location? ∨ subject?) pullExbinary
  pure { changehighlight, preservedblockee1, startdatetime, enddatetime, originalstartdate,
         subject, location, preservedblockee2 }

structure Appointmentrecurrencepattern where
  recurrencepattern : Recurrencepattern
  readerversion2 : UInt32
  writerversion2 : UInt32
  starttimeoffset : UInt32
  endtimeoffset : UInt32
  pexceptioninfo : List Exceptioninfo
  preservedblock1 : Bytes
  pextendedexception : List Extendedexception
  preservedblock2 : Bytes

def pullAppointmentrecurrencepattern : Pull Appointmentrecurrencepattern := do
  let recurrencepattern ← pullRecurrencepattern
  let readerversion2 ← pullUint32
  let writerversion2 ← pullUint32
  let starttimeoffset ← pullUint32
  let endtimeoffset ← pullUint32
  let exceptioncount ← pullUint16
  -- the second array is allocated here as well
  let pexceptioninfo ← pullElements pullExceptioninfo exceptioncount.toNat
  let preservedblock1 ← pullExbinary
  let pextendedexception ← forEach (fun info : Exceptioninfo =>
    pullExtendedexception x writerversion2 info.overrideflags) pexceptioninfo
  let preservedblock2 ← pullExbinary
  pure { recurrencepattern, readerversion2, writerversion2, starttimeoffset, endtimeoffset,
         pexceptioninfo, preservedblock1, pextendedexception, preservedblock2 }

structure Globalobjectid where
  arrayid : Block 16
  year : UInt16
  month : UInt8
  day : UInt8
  creationtime : UInt64
  x : Block 8
  data : Bytes

def pullGlobalobjectid : Pull Globalobjectid := do
  let arrayid ← pullBlock 16
  let yh ← pullUint8
  let yl ← pullUint8
  let month ← pullUint8
  let day ← pullUint8
  let creationtime ← pullUint64
  let x ← pullBlock 8
  let data ← pullExbinary
  pure { arrayid, year := yh.toUInt16 <<< 8 ||| yl.toUInt16, month, day, creationtime, x, data }

end SteepSystem.ExtBuffer
