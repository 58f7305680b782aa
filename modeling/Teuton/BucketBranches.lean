import Teuton.BucketPaths
import Teuton.ObjectStore

/-! The subnet's tree in a bucket. Its parts (runs, jobs, receipts, verdicts, artifacts) have
names that differ in their first letter, so an object is in one of them only. -/
namespace BucketBranches

open PyText ObjectStore BucketPaths

/-- The object lies in the part of the subnet's tree whose name starts with this letter. -/
def OnBranch (netuid : ℤ) (bucket : String) (c : Char) (uri : String) : Prop :=
  startsWith uri (joinUri bucket (root netuid ++ "/") ++ String.singleton c) = true

variable {netuid : ℤ} {bucket uri key rest : String} {c d : Char}

theorem onBranch_of_startsWith (rest : String)
    (hkey : key = root netuid ++ ("/" ++ String.singleton c ++ rest))
    (h : startsWith uri (joinUri bucket key) = true) : OnBranch netuid bucket c uri := by
  have hsplit : joinUri bucket key =
      joinUri bucket (root netuid ++ "/") ++ String.singleton c ++ rest := by
    simp only [hkey, joinUri, String.append_assoc]
  obtain ⟨tail, htail⟩ := startsWith_iff.mp h
  refine startsWith_iff.mpr ⟨rest.toList ++ tail, ?_⟩
  rw [htail, hsplit, String.toList_append, List.append_assoc]

theorem OnBranch.unique (hc : OnBranch netuid bucket c uri) (hne : c ≠ d) :
    ¬ OnBranch netuid bucket d uri := by
  unfold OnBranch at hc ⊢
  rw [← String.append_empty (s := _ ++ String.singleton c)] at hc
  rw [← String.append_empty (s := _ ++ String.singleton d), not_startsWith_both hne hc]
  simp

theorem not_onBranch_of_nested (h : startsWith uri (joinUri bucket (joinUri bucket key)) = true) :
    ¬ OnBranch netuid bucket c uri := by
  have hnested : joinUri bucket (joinUri bucket key) =
      "s3://" ++ bucket ++ "/" ++ String.singleton 's' ++ ("3://" ++ bucket ++ "/" ++ key) := by
    simp only [joinUri, String.append_assoc]
    rfl
  have hbranch : joinUri bucket (root netuid ++ "/") ++ String.singleton c =
      "s3://" ++ bucket ++ "/" ++ String.singleton 'v' ++
        ("3/netuid=" ++ toString netuid ++ "/" ++ String.singleton c) := by
    simp only [joinUri, root, String.append_assoc]
    rfl
  unfold OnBranch
  rw [hbranch, not_startsWith_both (by decide) (hnested ▸ h)]
  simp

theorem onBranch_uri (rest : String) (hkey : key = root netuid ++ ("/" ++ String.singleton c ++ rest)) :
    OnBranch netuid bucket c (joinUri bucket key) := by
  refine onBranch_of_startsWith rest hkey ?_
  simpa using startsWith_append (joinUri bucket key) ""

theorem manifestUri_onBranch (bucket runId jobId : String) :
    OnBranch netuid bucket 'j' (joinUri bucket (jobManifestKey netuid runId jobId)) := by
  refine onBranch_uri ("obs/" ++ runId ++ "/" ++ jobId ++ "/manifest.json") ?_
  simp only [jobManifestKey, jobsPrefix, String.append_assoc]
  rfl

theorem graphUri_onBranch (bucket runId sha256 : String) :
    OnBranch netuid bucket 'r' (joinUri bucket (graphKey netuid runId sha256)) := by
  refine onBranch_uri ("uns/" ++ runId ++ "/graphs/" ++ sha256 ++ ".json") ?_
  simp only [graphKey, graphsPrefix, runRoot, String.append_assoc]
  rfl

end BucketBranches
