import Mathlib.Data.List.TakeWhile
import QfClient.LocalClipboard

/-!
# Text sent and received back

Text crosses the wire as UTF-16 code units with a NUL behind them. The sender stops at
the first NUL it comes by; the receiver takes the length from the number of bytes and
drops a single NUL at the end.
-/

namespace QfClient

open LittleEndian Qt

/-- The bytes read as `char16_t`; an odd byte at the end is left over. -/
def char16Units : Bytes → List UInt16
  | low :: high :: rest => UInt16.ofNat (leNat [low, high]) :: char16Units rest
  | _ => []

/-- The text that the branch for `CF_UNICODETEXT` puts into the local clipboard; `fromUtf16` is
`QString::fromUtf16` of a string with a given length. -/
def textFromRemote (fromUtf16 : List UInt16 → QString) (data : Bytes) : QString :=
  let charCount := data.length / 2
  let textData := char16Units data
  let charCount :=
    if 0 < charCount ∧ textData[charCount - 1]? = some 0 then charCount - 1 else charCount
  fromUtf16 (textData.take charCount)

def RemoteUpdate.text (fromUtf16 : List UInt16 → QString) (update : RemoteUpdate) :
    Option QString :=
  match updateClipboardDataFromRemote update with
  | some .unicodeText => some (textFromRemote fromUtf16 update.data)
  | _ => none

theorem char16Units_leUInt16 (unit : UInt16) (rest : Bytes) :
    char16Units (leUInt16 unit ++ rest) = unit :: char16Units rest := by
  have hunit := ofNat_leNat_leUInt16 unit
  have hlength := length_leUInt16 unit
  match hbytes : leUInt16 unit with
  | [low, high] =>
      rw [hbytes] at hunit
      rw [List.cons_append, List.cons_append, List.nil_append, char16Units, hunit]
  | [] | [_] | _ :: _ :: _ :: _ =>
      rw [hbytes] at hlength
      simp at hlength

theorem char16Units_flatMap (units : List UInt16) :
    char16Units (units.flatMap leUInt16) = units := by
  induction units with
  | nil => rfl
  | cons unit units ih => rw [List.flatMap_cons, char16Units_leUInt16, ih]

def copiedText (text : QString) : MimeData where
  hasText := true
  text := text
  hasImage := false
  imageData := ⟨true, none, none⟩
  hasUrls := false
  urls := []

end QfClient
