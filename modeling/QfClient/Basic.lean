import QfClient.Qt

/-!
# Words shared by the whole client

Return codes, channel flags and message types as FreeRDP and WinPR define them,
and the two records that both halves of the file clipboard read: the entry of a
captured or announced file list and the File Contents Request.
-/

namespace QfClient

abbrev Bytes := List UInt8

abbrev QString := Qt.QString

def channelRcOk : UInt32 := 0
def channelRcBadProc : UInt32 := 11
def channelRcNoMemory : UInt32 := 12
def errorInvalidData : UInt32 := 13
def errorOutOfMemory : UInt32 := 14
def errorInvalidParameter : UInt32 := 87
def errorBadArguments : UInt32 := 160
def errorInternalError : UInt32 := 1359

def channelFlagFirst : UInt32 := 0x01
def channelFlagLast : UInt32 := 0x02
def channelFlagSuspend : UInt32 := 0x20
def channelFlagResume : UInt32 := 0x40

def cbFileContentsRequest : UInt16 := 8
def cbFileContentsResponse : UInt16 := 9

def cbResponseOk : UInt16 := 1
def cbResponseFail : UInt16 := 2

def fileContentsSize : UInt32 := 1
def fileContentsRange : UInt32 := 2

/-- `CLIPRDR_FLAG_LOCAL_TO_REMOTE_FILES` of the clipboard feature mask. -/
def cliprdrFlagLocalToRemoteFiles : UInt32 := 0x02

structure ClipboardInfoFile where
  displayName : QString
  localPath : QString
  total : UInt64
  isDirectory : Bool
  deriving DecidableEq, Repr

/-- `CLIPRDR_FILE_CONTENTS_REQUEST`; the clipboard lock id is there when
`haveClipDataId` is set. -/
structure FileContentsRequest where
  streamId : UInt32
  listIndex : UInt32
  dwFlags : UInt32
  nPositionLow : UInt32
  nPositionHigh : UInt32
  cbRequested : UInt32
  clipDataId : Option UInt32
  deriving DecidableEq, Repr

namespace FileContentsRequest

variable (request : FileContentsRequest)

def asksSize : Prop := request.dwFlags &&& fileContentsSize ≠ 0

def asksRange : Prop := request.dwFlags &&& fileContentsRange ≠ 0

instance : Decidable request.asksSize := inferInstanceAs (Decidable (_ ≠ _))

instance : Decidable request.asksRange := inferInstanceAs (Decidable (_ ≠ _))

end FileContentsRequest

end QfClient
