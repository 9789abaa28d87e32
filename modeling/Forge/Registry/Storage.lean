import Forge.Python.Dict
import Forge.Python.Hashlib

/-! # Content-addressed blob storage

`registry/storage.py`: the file of a blob is named by the SHA-256 of its content, and is written only
where no file of that name exists.
-/
namespace Forge.Registry
open Forge.Python
set_option autoImplicit false

/-- Path components below `STORAGE_DIR`. -/
abbrev BlobPath := List String

def blobPath (sha : String) : BlobPath := ["blobs", String.ofList (sha.toList.take 2), sha]

abbrev Blobs := Dict BlobPath Bytes

instance (path : BlobPath) (blobs : Blobs) : Decidable (path ∈ blobs.keys) := inferInstance

def storeBlob (blobs : Blobs) (data : Bytes) : Blobs × String :=
  let sha := sha256 data
  let path := blobPath sha
  if path ∈ blobs.keys then (blobs, sha) else (blobs.set path data, sha)

def getBlob (blobs : Blobs) (sha : String) : Option Bytes := blobs.get? (blobPath sha)

def verifyChecksum (data : Bytes) (declared : String) : Bool :=
  sha256 data = strip (removeAll declared "sha256:")

/-- The checksum that the clients of the registry declare. -/
theorem verifyChecksum_declared (data : Bytes) : verifyChecksum data ("sha256:" ++ sha256 data) = true := by
  have hHex : ∀ c ∈ (sha256 data).toList, c ≠ 's' ∧ isSpace c = false := by
    intro c hc
    have hDigits : (Sha256.hexDigits.all fun d => d ≠ 's' && !isSpace d) = true := by decide
    simpa using List.all_eq_true.mp hDigits c (mem_hexDigits_of_mem_sha256 hc)
  have hChars : ("sha256:" ++ sha256 data).toList = "sha256:".toList ++ (sha256 data).toList := by simp
  have hKept : removeAllFrom "sha256:".toList 0 (sha256 data).toList = (sha256 data).toList :=
    removeAllFrom_of_notMem (by rfl : _ = some 's') fun hc => (hHex 's' hc).1 rfl
  have hRemoved : removeAll ("sha256:" ++ sha256 data) "sha256:" = sha256 data := by
    rw [removeAll, hChars]
    exact (congrArg String.ofList hKept).trans String.ofList_toList
  have hStrip : stripChars ((sha256 data).toList ++ []) = (sha256 data).toList :=
    stripChars_append (fun c hc => (hHex c hc).2) (by simp)
  rw [List.append_nil] at hStrip
  simp [verifyChecksum, hRemoved, strip, hStrip]

theorem blobPath_injective {sha sha' : String} (h : blobPath sha = blobPath sha') : sha = sha' := by
  simp only [blobPath, List.cons.injEq] at h
  exact h.2.2.1

@[simp] theorem storeBlob_snd (blobs : Blobs) (data : Bytes) :
    (storeBlob blobs data).2 = sha256 data := by
  simp only [storeBlob]
  split <;> rfl

theorem storeBlob_of_absent {blobs : Blobs} {data : Bytes} (h : getBlob blobs (sha256 data) = none) :
    (storeBlob blobs data).1 = blobs.set (blobPath (sha256 data)) data := by
  rw [getBlob, Dict.get?_eq_none_iff] at h
  simp only [storeBlob, if_neg h]

theorem storeBlob_of_present {blobs : Blobs} {data content : Bytes}
    (h : getBlob blobs (sha256 data) = some content) : (storeBlob blobs data).1 = blobs := by
  have hMem := Dict.mem_keys_of_get? h
  simp only [storeBlob, if_pos hMem]

theorem getBlob_set (blobs : Blobs) (sha sha' : String) (content : Bytes) :
    getBlob (blobs.set (blobPath sha) content) sha' =
      if sha' = sha then some content else getBlob blobs sha' := by
  rw [getBlob, Dict.get?_set]
  by_cases h : sha' = sha
  · rw [if_pos h, h, if_pos rfl]
  · rw [if_neg h, if_neg fun hPath => h (blobPath_injective hPath)]
    rfl

/-- A stored file is never replaced, and no file but that of the data is new. -/
theorem getBlob_storeBlob (blobs : Blobs) (data : Bytes) (sha : String) :
    getBlob (storeBlob blobs data).1 sha =
      if sha = sha256 data then some ((getBlob blobs sha).getD data) else getBlob blobs sha := by
  cases h : getBlob blobs (sha256 data) with
  | none =>
    rw [storeBlob_of_absent h, getBlob_set]
    split
    · rename_i hSha
      rw [hSha, h]
      rfl
    · rfl
  | some content =>
    rw [storeBlob_of_present h]
    split
    · rename_i hSha
      rw [hSha, h]
      rfl
    · rfl

end Forge.Registry
