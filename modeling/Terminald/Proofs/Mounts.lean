import Terminald.Model.Assets

namespace Terminald.Assets
open Machine

/-- The segments of a path the app is served at. -/
structure Mount where
  segments : List Text
  nonempty : ∀ s ∈ segments, s ≠ []
  single : ∀ s ∈ segments, '/' ∉ s
  inside : ∀ s ∈ segments, s ≠ "..".toList

/-- The segments, each with its slash. -/
def closed (segments : List Text) : Text := segments.flatMap (fun s => s ++ ['/'])

def Mount.path (mount : Mount) : Text := '/' :: closed mount.segments

/-- A file name with an extension. -/
structure FileName where
  text : Text
  single : '/' ∉ text
  extension : '.' ∈ text

def FileName.asset (f : FileName) : Text := assetsDir ++ f.text

def assetsWord : Text := "assets".toList

theorem assetsDir_eq : assetsDir = assetsWord ++ ['/'] := by decide

/-- The slash of the mount path is the only one in front. -/
theorem trim_mount {segments : List Text} (hn : ∀ s ∈ segments, s ≠ []) (hs : ∀ s ∈ segments, '/' ∉ s)
    (f : Text) :
    ('/' :: closed segments ++ (assetsDir ++ f)).dropWhile (fun c => c == '/') =
      closed segments ++ (assetsDir ++ f) := by
  cases segments with
  | nil => rfl
  | cons s rest =>
    cases s with
    | nil => exact absurd rfl (hn [] List.mem_cons_self)
    | cons x xs =>
      have hx : x ≠ '/' := fun h => hs (x :: xs) List.mem_cons_self (h ▸ List.mem_cons_self)
      simp [closed,hx]

theorem extension_kept (front : Text) (f : FileName) :
    pathHasExtension (front ++ (assetsDir ++ f.text)) = true := by
  have he : front ++ (assetsDir ++ f.text) = (front ++ assetsWord) ++ '/' :: f.text := by
    simp [assetsDir_eq]
  rw [pathHasExtension,he,lastPart_closed f.single]
  simpa using f.extension

/-- The directory is found in front of the file when no segment ends like it. -/
theorem find_assets {segments : List Text} (hs : ∀ s ∈ segments, '/' ∉ s)
    (hplain : ∀ s ∈ segments, ¬ assetsWord <:+ s) (f : Text) :
    find assetsDir (closed segments ++ (assetsDir ++ f)) = some (closed segments).length := by
  induction segments with
  | nil => exact find_front assetsDir f
  | cons s rest ih =>
    have hrest := ih (fun t ht => hs t (List.mem_cons_of_mem s ht))
      (fun t ht => hplain t (List.mem_cons_of_mem s ht))
    have hsplit : closed (s :: rest) ++ (assetsDir ++ f) =
        s ++ '/' :: (closed rest ++ (assetsDir ++ f)) := by simp [closed]
    rw [hsplit,assetsDir_eq,find_closed (by decide) (hs s List.mem_cons_self),
      if_neg (hplain s List.mem_cons_self),← assetsDir_eq,hrest]
    simp [closed]
    omega

/-- Otherwise it is found in the mount path. -/
theorem find_early {segments : List Text} (hs : ∀ s ∈ segments, '/' ∉ s)
    (hword : ∃ s ∈ segments, assetsWord <:+ s) (f : Text) :
    ∃ i, find assetsDir (closed segments ++ (assetsDir ++ f)) = some i ∧ i < (closed segments).length := by
  induction segments with
  | nil => simp at hword
  | cons s rest ih =>
    have hsplit : closed (s :: rest) ++ (assetsDir ++ f) =
        s ++ '/' :: (closed rest ++ (assetsDir ++ f)) := by simp [closed]
    rw [hsplit,assetsDir_eq,find_closed (by decide) (hs s List.mem_cons_self),← assetsDir_eq]
    by_cases hhere : assetsWord <:+ s
    · refine ⟨_,if_pos hhere,?_⟩
      simp only [closed,List.flatMap_cons,List.length_append,List.length_singleton]
      omega
    · obtain ⟨t,ht,hsuf⟩ := hword
      have htail : t ∈ rest := by
        rcases List.mem_cons.mp ht with rfl | h
        · exact absurd hsuf hhere
        · exact h
      obtain ⟨i,hi,hlt⟩ := ih (fun t ht => hs t (List.mem_cons_of_mem s ht)) ⟨t,htail,hsuf⟩
      rw [if_neg hhere,hi]
      refine ⟨_,rfl,?_⟩
      simp only [closed,List.flatMap_cons,List.length_append,List.length_singleton] at hlt ⊢
      omega

/-- Under a mount path only the file's part is looked up, exactly when no segment ends
in the name of the directory. -/
theorem relative_iff (mount : Mount) (f : FileName) :
    assetRelativePath (mount.path ++ f.asset) = f.asset ↔
      ∀ s ∈ mount.segments, ¬ assetsWord <:+ s := by
  have htrim := trim_mount mount.nonempty mount.single f.text
  have hne : (closed mount.segments ++ (assetsDir ++ f.text)).isEmpty = false := by
    simp [assetsDir_eq]
  unfold assetRelativePath Mount.path FileName.asset
  simp only [htrim,extension_kept,hne,Bool.not_true,Bool.or_self,Bool.false_eq_true,if_false]
  constructor
  · intro h s hs hword
    obtain ⟨i,hi,hlt⟩ := find_early mount.single ⟨s,hs,hword⟩ f.text
    rw [hi] at h
    have := congrArg List.length h
    simp only [List.length_drop,List.length_append] at this
    omega
  · intro hplain
    rw [find_assets mount.single hplain]
    simp

/-- A mount path has no parent segment of its own. -/
theorem parent_mount (mount : Mount) (path : Text) :
    hasParentSegment (mount.path ++ path) = hasParentSegment ('/' :: path) := by
  have split : ∀ segments : List Text, (∀ s ∈ segments, '/' ∉ s) → (∀ s ∈ segments, s ≠ "..".toList) →
      ((closed segments ++ path).splitOn '/').any (fun s => s == "..".toList) =
        (path.splitOn '/').any (fun s => s == "..".toList) := by
    intro segments hs hin
    induction segments with
    | nil => rfl
    | cons s rest ih =>
      have hsplit : closed (s :: rest) ++ path = s ++ '/' :: (closed rest ++ path) := by simp [closed]
      rw [hsplit,List.splitOn_append_cons_self_of_not_mem (hs s List.mem_cons_self),List.any_cons,
        ih (fun t ht => hs t (List.mem_cons_of_mem s ht)) (fun t ht => hin t (List.mem_cons_of_mem s ht)),
        beq_eq_false_iff_ne.mpr (hin s List.mem_cons_self),Bool.false_or]
  have front : ∀ text : Text, hasParentSegment ('/' :: text) =
      (text.splitOn '/').any (fun s => s == "..".toList) := by
    intro text
    rw [hasParentSegment,splitOn_front,List.any_cons]
    rfl
  rw [Mount.path,List.cons_append,front,front,split mount.segments mount.single mount.inside]

/-- The mount path does not matter to a load exactly when none of its segments ends in
the name of the assets' directory. -/
theorem mount_irrelevant_iff (mount : Mount) (f : FileName) :
    (assetRelativePath (mount.path ++ f.asset) = f.asset ∧
      ∀ (config : AssetConfig) (files : Files),
        config.load files (mount.path ++ f.asset) = config.load files ('/' :: f.asset)) ↔
      ∀ s ∈ mount.segments, ¬ assetsWord <:+ s := by
  rw [← relative_iff]
  refine ⟨fun h => h.1,fun h => ⟨h,fun config files => ?_⟩⟩
  have hroot : assetRelativePath ('/' :: f.asset) = f.asset :=
    (relative_iff ⟨[],by simp,by simp,by simp⟩ f).mpr (by simp)
  unfold AssetConfig.load
  rw [parent_mount,h,hroot]

def toolMount : Mount := ⟨["my-assets".toList],by decide,by decide,by decide⟩

def script : FileName := ⟨"terminald.js".toList,by decide,by decide⟩

/-- A built frontend. -/
def builtFiles : Files :=
  ⟨fun _ => none,fun path => if path = distDir ++ script.asset then some [59] else none⟩

/-- Under `/my-assets/` the script is not found. -/
theorem tool_mount_blank :
    assetRelativePath (toolMount.path ++ script.asset) = "assets/assets/terminald.js".toList ∧
      (AssetConfig.embedded.load builtFiles ('/' :: script.asset)).1 =
        .ok (some ⟨[59],"text/javascript; charset=utf-8"⟩) ∧
      (AssetConfig.embedded.load builtFiles (toolMount.path ++ script.asset)).1 = .ok none := by
  refine ⟨by decide,?_,?_⟩
  · rfl
  · rfl

end Terminald.Assets
