import Terminald.Machine.Folders
import Terminald.Model.Assets

namespace Terminald.Assets
open Machine Folders

/-- The file is the root with a path below it. -/
structure Inside (root relative file : Text) : Prop where
  joined : file = join root relative
  notAbsolute : absolute relative = false
  noParent : parent ∉ relative.splitOn '/'
  below : ∀ working, locate working file = locate working root ++ components relative

variable {root relative requestPath : Text}

theorem join_below (hr : absolute relative = false) (hp : parent ∉ relative.splitOn '/') :
    Inside root relative (join root relative) := by
  have hdeep : parent ∉ components relative := fun h => hp (mem_components h)
  refine ⟨rfl,hr,hp,fun working => ?_⟩
  have joined : ∀ front, absolute (front ++ '/' :: relative) = absolute root →
      components front = components root →
      locate working (front ++ '/' :: relative) = locate working root ++ components relative := by
    intro front ha hc
    simp only [locate,ha,components_slash,hc,resolve_append,resolve_deeper hdeep]
  simp only [join]
  split
  · rename_i hroot
    rcases Bool.or_eq_true_iff.mp hroot with h | h
    · exact absurd (hr.symm.trans h) Bool.false_ne_true
    · obtain rfl := List.isEmpty_iff.mp h
      have hn : locate working [] = working := rfl
      rw [hn,locate,hr,resolve_deeper hdeep]
      rfl
  · rename_i hroot
    have hne : root ≠ [] := by
      simp only [Bool.or_eq_true,not_or,List.isEmpty_iff] at hroot
      exact hroot.2
    split
    · rename_i hs
      obtain ⟨front,rfl⟩ := List.isSuffixOf_iff_suffix.mp hs
      rw [List.append_assoc]
      apply joined
      · cases front <;> rfl
      · exact ((components_slash front []).trans (List.append_nil _)).symm
    · apply joined root
      · cases root with
        | nil => exact absurd rfl hne
        | cons c cs => rw [List.cons_append,absolute_cons,absolute_cons]
      · rfl

/-- What the lookup takes from the path has no new part and does not start at the top. -/
theorem assetRelativePath_relative (requestPath : Text) : absolute (assetRelativePath requestPath) = false := by
  simp only [assetRelativePath]
  split
  · decide
  · split
    · rename_i index hi
      obtain ⟨front,rest,hp,rfl⟩ := find_some hi
      rw [hp,List.drop_left]
      rfl
    · exact trimmed_relative requestPath

theorem assetRelativePath_parts (h : parent ∉ requestPath.splitOn '/') :
    parent ∉ (assetRelativePath requestPath).splitOn '/' := by
  have htrim : parent ∉ (requestPath.dropWhile (fun c => c == '/')).splitOn '/' :=
    fun hm => h (splitOn_trimmed hm)
  simp only [assetRelativePath]
  split
  · decide
  · split
    · rename_i index hi
      obtain ⟨front,rest,hp,rfl⟩ := find_some hi
      have hw : assetsDir ++ rest = "assets".toList ++ '/' :: rest := rfl
      rw [hp,hw] at htrim
      rw [hp,List.drop_left,hw]
      intro hm
      rcases splitOn_cut (by decide) front hm with heq | hm
      · exact absurd heq (by decide)
      · exact htrim hm
    · exact htrim

theorem hasParentSegment_iff : hasParentSegment requestPath = true ↔ parent ∈ requestPath.splitOn '/' := by
  simp only [hasParentSegment,List.any_eq_true,beq_iff_eq]
  constructor
  · rintro ⟨s,hs,rfl⟩
    exact hs
  · intro h
    exact ⟨parent,h,rfl⟩

/-- Every file read is the external root with a path below it, and a path with a parent segment
is not looked up at all. -/
theorem external_stays_inside (config : AssetConfig) (files : Files) (requestPath : Text) :
    (∀ file, .file file ∈ (config.load files requestPath).2 →
      ∃ root relative, config.externalDist = some root ∧ Inside root relative file) ∧
    (parent ∈ requestPath.splitOn '/' → config.load files requestPath = (.ok none,[])) := by
  constructor
  · intro file hf
    simp only [AssetConfig.load] at hf
    split at hf
    · cases hf
    · rename_i hparent
      have hparts : parent ∉ requestPath.splitOn '/' := fun h => hparent (hasParentSegment_iff.mpr h)
      have hin : ∀ root, Inside root (assetRelativePath requestPath) (join root (assetRelativePath requestPath)) :=
        fun root => join_below (assetRelativePath_relative requestPath) (assetRelativePath_parts hparts)
      cases he : config.externalDist with
      | none => simp [he] at hf
      | some root =>
        refine ⟨root,assetRelativePath requestPath,rfl,?_⟩
        have hfile : file = join root (assetRelativePath requestPath) := by
          simp only [he] at hf
          split at hf
          · simpa using hf
          · simpa using hf
        exact hfile ▸ hin root
  · intro hparent
    rw [AssetConfig.load,if_pos (hasParentSegment_iff.mpr hparent)]

example : ((AssetConfig.withExternalDist "/srv".toList).load ⟨fun _ => none,fun _ => none⟩
    "//x.assets//etc/a.js".toList).2 =
      [.file "/srv/assets//etc/a.js".toList,.embedded "assets//etc/a.js".toList] := by decide

end Terminald.Assets
