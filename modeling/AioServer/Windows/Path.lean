import AioServer.Lib.Path
import AioServer.Windows.Request

/-!
# The Windows server: the path of a resource

`server_transmit_resource` puts the document of a request behind `so_www_rootdir` and cuts the
result to `MAX_PATH` bytes. It does not look at the segments of the document.

* `filePath`: the path that is passed to `CreateFile`;
* `Inside`: where a path leads, against the directory it should stay in. A path that begins
  with a separator, or with a drive and a separator, is rooted;
* `inside_filePath_iff`: a path stays inside just when its document climbs no higher than it
  goes down again through the names of the root.

Names are compared through a function `canon`, which may for instance ignore case.
-/

namespace AioServer.Windows

open Lib

/-! ## The code -/

/-- `MAX_PATH`. -/
def maxPath : ℕ := 260

/-- `string_v_printf` into a buffer of `dstLen` bytes. -/
def stringVPrintf (dstLen : ℕ) (s : List UInt8) : List UInt8 := s.take (dstLen - 1)

/-- `(*res_path == '/' ? res_path + 1 : res_path)`. -/
def skipSlash (resPath : List UInt8) : List UInt8 :=
  if resPath.head? = some 47 then resPath.tail else resPath

/-- `file_path` of `server_transmit_resource`, from `so_www_rootdir` and `res_path`. -/
def filePath (root resPath : List UInt8) : List UInt8 :=
  stringVPrintf (maxPath + 1) (root ++ 47 :: skipSlash resPath)

/-! ## Where a path leads -/

/-- `/` or `\`. -/
def isSeparator (b : UInt8) : Bool := b == 47 || b == 92

section paths

variable {ν : Type} (canon : List UInt8 → ν)

/-- A segment between two separators. -/
def pathStep (segment : List UInt8) : PathStep ν :=
  if segment = [] ∨ segment = [46] then .stay
  else if segment = [46, 46] then .up
  else .down (canon segment)

/-- The steps of a path without a drive. -/
def pathSteps (path : List UInt8) : List (PathStep ν) :=
  (path.splitOnP isSeparator).map (pathStep canon)

/-- The drive letter in front of a path. -/
def drive : List UInt8 → Option UInt8
  | letter :: colon :: _ =>
    if colon = 58 ∧ 97 ≤ tolower letter ∧ tolower letter ≤ 122 then some (tolower letter) else none
  | _ => none

/-- The path behind the drive. -/
def afterDrive (path : List UInt8) : List UInt8 :=
  if (drive path).isSome then path.drop 2 else path

/-- The path does not depend on a current directory. -/
def rooted (path : List UInt8) : Bool := (afterDrive path).head?.any isSeparator

/-- Where the path leads on its drive. -/
def place (path : List UInt8) : Place ν :=
  Place.start.walk (rooted path) (pathSteps canon (afterDrive path))

/-- The path leads to the directory `root` or below it. -/
def Inside (root path : List UInt8) : Prop :=
  drive path = drive (root ++ [47]) ∧ rooted path = rooted (root ++ [47]) ∧
    (place canon (root ++ [47])).Within (place canon path)

instance [DecidableEq ν] (root path : List UInt8) : Decidable (Inside canon root path) :=
  inferInstanceAs (Decidable (_ ∧ _ ∧ _))

/-! ## The condition -/

/-- The document by itself climbs no higher than the root has names, or the root is rooted; and
from there it goes down again through the last names of the root. -/
def ComesBack (root document : List UInt8) : Prop :=
  let names := (place canon (root ++ [47])).names
  let doc := Place.normalize (pathSteps canon document)
  (rooted (root ++ [47]) = true ∨ doc.climbs ≤ names.length) ∧
    names.drop (names.length - doc.climbs) <+: doc.names

/-- A root that fits leaves its document the rest of the `MAX_PATH` bytes; of a root that does
not fit there is only its own front. -/
def StaysInside (root resPath : List UInt8) : Prop :=
  if root.length < maxPath then
    ComesBack canon root ((skipSlash resPath).take (maxPath - 1 - root.length))
  else Inside canon root (root.take maxPath)

variable {canon} {root document : List UInt8}

/-! ## A document behind the root -/

/-- The root says on which drive the path is. -/
theorem drive_append (root document : List UInt8) :
    drive (root ++ 47 :: document) = drive (root ++ [47]) := by
  rcases root with _ | ⟨x, _ | ⟨y, root⟩⟩
  · cases document <;> simp [drive, tolower]
  · simp [drive]
  · rfl

/-- A drive takes two bytes of the root. -/
theorem two_le_length_of_drive (h : (drive (root ++ [47])).isSome) : 2 ≤ root.length := by
  rcases root with _ | ⟨x, _ | ⟨y, root⟩⟩
  · cases h
  · simp [drive] at h
  · simp

/-- What is left of the root behind its drive. -/
def rootRest (root : List UInt8) : List UInt8 :=
  if (drive (root ++ [47])).isSome then root.drop 2 else root

theorem afterDrive_append (root document : List UInt8) :
    afterDrive (root ++ 47 :: document) = rootRest root ++ 47 :: document := by
  unfold afterDrive rootRest
  rw [drive_append]
  split_ifs with hd
  · exact List.drop_append_of_le_length (two_le_length_of_drive hd)
  · rfl

theorem rooted_append (root document : List UInt8) :
    rooted (root ++ 47 :: document) = rooted (root ++ [47]) := by
  unfold rooted
  rw [afterDrive_append, afterDrive_append]
  cases rootRest root <;> rfl

theorem pathSteps_append (x y : List UInt8) :
    pathSteps canon (x ++ 47 :: y) = pathSteps canon x ++ pathSteps canon y := by
  unfold pathSteps
  rw [List.splitOnP_append_cons _ _ (by decide), List.map_append]

/-- The document goes on where the root leads. -/
theorem place_append (root document : List UInt8) :
    place canon (root ++ 47 :: document) =
      (place canon (root ++ [47])).append (rooted (root ++ [47]))
        (Place.normalize (pathSteps canon document)) := by
  have hroot : place canon (root ++ [47])
      = Place.start.walk (rooted (root ++ [47])) (pathSteps canon (rootRest root)) := by
    unfold place
    rw [afterDrive_append, pathSteps_append, Place.walk_append]
    rfl
  rw [hroot, ← Place.walk_eq_append, ← Place.walk_append, ← pathSteps_append, place,
    rooted_append, afterDrive_append]

theorem inside_append_iff (root document : List UInt8) :
    Inside canon root (root ++ 47 :: document) ↔ ComesBack canon root document := by
  unfold Inside ComesBack
  rw [drive_append root document, rooted_append root document, place_append root document,
    Place.within_append_iff]
  simp only [true_and]

/-! ## The path of a resource -/

/-- The path stays inside the root just when its document comes back. -/
theorem inside_filePath_iff (root resPath : List UInt8) :
    Inside canon root (filePath root resPath) ↔ StaysInside canon root resPath := by
  unfold filePath stringVPrintf StaysInside
  rw [Nat.add_sub_cancel]
  split_ifs with hfit
  · have hcut : maxPath - root.length = maxPath - 1 - root.length + 1 := by omega
    rw [List.take_append, List.take_of_length_le (by omega), hcut, List.take_succ_cons]
    exact inside_append_iff root _
  · rw [List.take_append_of_le_length (by omega)]

/-- A document without `..` stays inside a root that fits. -/
theorem inside_of_no_up {resPath : List UInt8} (hfit : root.length < maxPath)
    (hup : (PathStep.up : PathStep ν) ∉
      pathSteps canon ((skipSlash resPath).take (maxPath - 1 - root.length))) :
    Inside canon root (filePath root resPath) := by
  have hclimbs : ∀ (steps : List (PathStep ν)), PathStep.up ∉ steps →
      (Place.normalize steps).climbs = 0 := by
    intro steps
    induction steps using List.reverseRecOn with
    | nil => exact fun _ => rfl
    | append_singleton steps s ih =>
      intro hsteps
      rw [List.mem_append, not_or] at hsteps
      have hprev := ih hsteps.1
      unfold Place.normalize at hprev ⊢
      rw [Place.walk_append]
      cases s with
      | up => exact absurd List.mem_cons_self hsteps.2
      | stay => exact hprev
      | down name => exact hprev
  rw [inside_filePath_iff, StaysInside, if_pos hfit, ComesBack, hclimbs _ hup, Nat.sub_zero,
    List.drop_length]
  exact ⟨Or.inr (Nat.zero_le _), List.nil_prefix⟩

/-- Every document that the request in a buffer yields names a path inside the root. -/
def Confined (canon : List UInt8 → ν) (root buffRequest : List UInt8) : Prop :=
  ∀ document, parseRequest buffRequest = some document →
    Inside canon root (filePath root document)

/-- For every root and every request. -/
theorem confined_iff (root buffRequest : List UInt8) : Confined canon root buffRequest ↔
    ∀ document, parseRequest buffRequest = some document → StaysInside canon root document := by
  unfold Confined
  simp only [inside_filePath_iff]

end paths

/-- `GET /../../secret HTTP/1.1` names `C:/secret`, outside of `C:/temp/wwwroot`. -/
theorem request_leaves_root : ¬ ∀ root buffRequest, Confined id root buffRequest := by
  intro h
  have hin := h (cstr "C:/temp/wwwroot") (cstr "GET /../../secret HTTP/1.1\r\n")
    (cstr "/../../secret") (by decide)
  revert hin
  decide

end AioServer.Windows
