import Teuton.GptPipeTask

/-! Which part of the bucket the start of a streaming run touches, and when a second manager that
attaches to a run leaves everything as it is. -/
namespace StressAttach

open PyJson (Py PyErr Json)
open PyText Signatures ObjectStore BucketPaths StreamEmission Effects GptPipeTask

variable {β : Type}

/-! ### The stages are built by reading -/

section Reading

structure Reads (w w' : TaskWorld β) : Prop where
  bucket : w'.bucket = w.bucket
  written : w'.written = w.written

instance : Std.Refl (Reads : TaskWorld β → TaskWorld β → Prop) := ⟨fun _ => ⟨rfl, rfl⟩⟩

instance : IsTrans (TaskWorld β) Reads where
  trans _ _ _ h h' := ⟨h'.bucket.trans h.bucket, h'.written.trans h.written⟩

theorem reads_setGlobals (value : Option Json)
    (set : Json → Hyperparameters → Py Hyperparameters) :
    Within (Reads (β := β)) (setGlobals value set) := by
  cases value with
  | none => exact within_pure _
  | some v =>
    refine within_update fun w a w' h => ?_
    obtain ⟨globals, -, h⟩ := PyJson.bind_eq_ok.mp h
    cases h
    exact ⟨rfl, rfl⟩

theorem reads_buildStreamingInputs (L : TaskLibraries β) (runId : String) :
    Within Reads (buildStreamingInputs L runId) := by
  refine within_get.bind fun w => ?_
  refine (within_lift _).bind fun cfg => ?_
  refine (within_lift _).bind fun epochs => ?_
  refine (within_lift _).bind fun _ => ?_
  refine (within_lift _).bind fun fields => ?_
  refine (within_lift _).bind fun nMicrobatches => ?_
  refine (Within.forM fun entry _ => reads_setGlobals _ _).bind fun _ => ?_
  refine (Within.forM fun entry _ => reads_setGlobals _ _).bind fun _ => ?_
  refine within_get.bind fun w' => ?_
  refine (Within.mapM fun stage _ => within_lift _).bind fun stages => ?_
  refine (within_lift _).bind fun tokens => ?_
  exact (within_lift _).bind fun tpSize => within_pure _

theorem parse_of_buildStreamingInputs {L : TaskLibraries β} {runId : String} {w w' : TaskWorld β}
    {r : List PipelineStage × StreamingParams} (h : buildStreamingInputs L runId w = .ok r w') :
    ∃ parts, parseUri (joinUri w.bucket.name (legacyManifestConfigKey runId)) = .ok parts := by
  obtain ⟨w₁, _, hget, h⟩ := bind_eq_ok.mp h
  obtain ⟨rfl, rfl⟩ := get_eq_ok.mp hget
  obtain ⟨cfg, _, hcfg, -⟩ := bind_eq_ok.mp h
  obtain ⟨found, hfound, -⟩ := PyJson.bind_eq_ok.mp (lift_eq_ok.mp hcfg).1
  obtain ⟨parts, hparts, -⟩ := PyJson.bind_eq_ok.mp hfound
  exact ⟨parts, hparts⟩

end Reading

/-! ### The task writes below `runs/` -/

section Seeding

/-- Objects outside `runs/` are kept, and the record of writes grows. -/
structure Seeds (w w' : TaskWorld β) : Prop where
  name : w'.bucket.name = w.bucket.name
  written : w.written <+: w'.written
  kept : ∀ key, startsWith key "runs/" = false →
    w'.bucket.objects.find? (joinUri w.bucket.name key) =
      w.bucket.objects.find? (joinUri w.bucket.name key)

instance : Std.Refl (Seeds : TaskWorld β → TaskWorld β → Prop) :=
  ⟨fun _ => ⟨rfl, List.prefix_rfl, fun _ _ => rfl⟩⟩

instance : IsTrans (TaskWorld β) Seeds where
  trans w w' w'' h h' := by
    refine ⟨h'.name.trans h.name, h.written.trans h'.written, fun key hkey => ?_⟩
    have hkept := h'.kept key hkey
    rw [h.name] at hkept
    exact hkept.trans (h.kept key hkey)

theorem Reads.seeds {w w' : TaskWorld β} (h : Reads w w') : Seeds w w' := by
  refine ⟨?_, ?_, fun key _ => ?_⟩
  · rw [h.bucket]
  · rw [h.written]
  · rw [h.bucket]

theorem joinUri_inj {bucket key key' : String} :
    joinUri bucket key = joinUri bucket key' ↔ key = key' := by
  simp only [joinUri, ← String.toList_inj, String.toList_append, List.append_cancel_left_eq]

theorem put_eq_ok {key : String} {body : β} {w w' : TaskWorld β} {r : PUnit} :
    put key body w = .ok r w' ↔
      (∃ parts, parseUri (joinUri w.bucket.name key) = .ok parts) ∧
      w' = { w with
        bucket := { w.bucket with
          objects := w.bucket.objects.insert (joinUri w.bucket.name key) body }
        written := w.written ++ [joinUri w.bucket.name key] } := by
  rw [put, update_eq_ok, PyJson.bind_eq_ok]
  constructor
  · rintro ⟨b, hb, h⟩
    obtain ⟨hparts, rfl⟩ := Bucket.put_eq_ok.mp hb
    cases h
    exact ⟨hparts, rfl⟩
  · rintro ⟨hparts, rfl⟩
    exact ⟨_, Bucket.put_eq_ok.mpr ⟨hparts, rfl⟩, rfl⟩

theorem seeds_put {key : String} (hkey : startsWith key "runs/" = true) (body : β) :
    Within Seeds (put key body) := by
  refine fun w => ends_iff.mpr ⟨fun r w' h => ?_, fun e w' h => ?_⟩
  · obtain ⟨-, rfl⟩ := put_eq_ok.mp h
    refine ⟨rfl, List.prefix_append _ _, fun key' hkey' => ?_⟩
    rw [SortedDict.find?_insert, if_neg]
    intro heq
    rw [joinUri_inj.mp heq, hkey] at hkey'
    cases hkey'
  · obtain ⟨-, rfl⟩ := update_eq_error.mp h
    exact refl _

theorem startsWith_staticKey (runId name : String) :
    startsWith (staticKey runId name) "runs/" = true := by
  simp only [staticKey, legacyRunRoot, String.append_assoc]
  exact startsWith_append _ _

theorem seeds_putUnlessPresent (runId name : String) (body : Py β) :
    Within Seeds (putUnlessPresent (staticKey runId name) body) := by
  refine (within_lift _).bind fun blob => within_get.bind fun w => ?_
  refine (within_lift _).bind fun found => ?_
  split_ifs
  · exact within_pure _
  · exact seeds_put (startsWith_staticKey runId name) blob

theorem seeds_override (env : String → Option String) (name : String)
    (set : String → Hyperparameters → Py Hyperparameters) :
    Within (Seeds (β := β)) (override env name set) := by
  unfold override
  cases env name with
  | none => exact within_pure _
  | some text =>
    dsimp only
    split_ifs
    · exact within_pure _
    · refine within_update fun w a w' h => ?_
      obtain ⟨globals, -, h⟩ := PyJson.bind_eq_ok.mp h
      cases h
      exact Reads.seeds ⟨rfl, rfl⟩

theorem seeds_putSubspaces (L : TaskLibraries β) (runId : String) (h : Hyperparameters) :
    Within Seeds (putSubspaces L runId h) := by
  unfold putSubspaces
  cases h.subspaceK with
  | none => exact within_pure _
  | some k =>
    dsimp only
    split_ifs
    · exact (seeds_putUnlessPresent _ _ _).bind fun _ => seeds_putUnlessPresent _ _ _
    · exact within_pure _

theorem seeds_putStageWeights (L : TaskLibraries β) (runId : String) (h : Hyperparameters)
    (stage : ℕ) : Within Seeds (putStageWeights L runId h stage) := by
  refine (within_lift _).bind fun blob => seeds_put ?_ blob
  simp only [stageWeightsKey, legacyRunRoot, String.append_assoc]
  exact startsWith_append _ _

theorem seeds_putTokens (L : TaskLibraries β) (runId tokensUri : String) (h : Hyperparameters) :
    Within Seeds (putTokens L runId tokensUri h) := by
  refine within_get.bind fun w => ?_
  split_ifs
  · exact within_pure _
  · refine (within_lift _).bind fun found => ?_
    split_ifs
    · exact within_pure _
    · exact (within_lift _).bind fun tokens => seeds_put (startsWith_staticKey _ _) tokens

theorem seeds_bootstrap_rest (L : TaskLibraries β) (env : String → Option String) (runId : String)
    (maxRounds : ℤ) : ∃ rest : EStateM PyErr (TaskWorld β) PUnit, Within Seeds rest ∧
      bootstrap L env runId maxRounds =
        put (legacyStateKey runId) (L.platform.dumps (initialState runId maxRounds)) >>=
          fun _ => rest := by
  refine ⟨_, ?_, rfl⟩
  refine (Within.forM fun entry _ => seeds_override env _ _).bind fun _ => ?_
  refine within_get.bind fun w => ?_
  refine (seeds_put ?_ _).bind fun _ => ?_
  · simp only [legacyManifestConfigKey, legacyRunRoot, String.append_assoc]
    exact startsWith_append _ _
  refine (seeds_putSubspaces L runId _).bind fun _ => ?_
  have hend : Within Seeds ((List.range w.globals.nStages.toNat).forM
      (putStageWeights L runId w.globals) >>= fun _ =>
        putTokens L runId ((env "GPT_PIPE_TOKENS_URI").getD "") w.globals) :=
    (Within.forM fun stage _ => seeds_putStageWeights L runId _ stage).bind fun _ =>
      seeds_putTokens L runId _ _
  split_ifs
  · exact (seeds_putUnlessPresent _ _ _).bind fun _ => hend
  · exact hend

end Seeding

/-! ### Attaching -/

section Attaching

variable {L : TaskLibraries β} {env : String → Option String} {cfg : BootstrapConfig}
  {w w' : TaskWorld β} {r : List PipelineStage × StreamingParams}

theorem bootstrapArtifactsPresent_eq_true {b : Bucket β} :
    bootstrapArtifactsPresent cfg b = true ↔
      cfg.stressSkipBootstrapIfPresent = true ∧ b.exists (manifestUri cfg b) = .ok true := by
  rw [bootstrapArtifactsPresent, Bool.and_eq_true]
  refine and_congr_right fun _ => ?_
  cases b.exists (manifestUri cfg b) <;> simp

theorem managerBootstrap_attached (hstress : cfg.stressEmit = true)
    (hpresent : bootstrapArtifactsPresent cfg w.bucket = true) :
    managerBootstrap L env cfg w = buildStreamingInputs L cfg.runId w := by
  change (if (cfg.stressEmit && bootstrapArtifactsPresent cfg w.bucket) = true then _ else _ :
    EStateM PyErr (TaskWorld β) _) w = _
  rw [hstress, hpresent]
  rfl

theorem managerBootstrap_seeding
    (h : (cfg.stressEmit && bootstrapArtifactsPresent cfg w.bucket) = false) :
    managerBootstrap L env cfg w = (bootstrap L env cfg.runId cfg.maxEpochs >>= fun _ =>
      buildStreamingInputs L cfg.runId) w := by
  change (if (cfg.stressEmit && bootstrapArtifactsPresent cfg w.bucket) = true then _ else _ :
    EStateM PyErr (TaskWorld β) _) w = _
  rw [h]
  rfl

theorem seeds_buildStreamingInputs {runId : String} :
    Within Seeds (buildStreamingInputs L runId) := fun w =>
  (reads_buildStreamingInputs L runId w).mono fun _ _ h => h.seeds

theorem seeds_managerBootstrap : Within Seeds (managerBootstrap L env cfg) := by
  refine within_get.bind fun w => ?_
  split_ifs
  · exact seeds_buildStreamingInputs
  · obtain ⟨rest, hrest, heq⟩ := seeds_bootstrap_rest L env cfg.runId cfg.maxEpochs
    refine Within.bind ?_ fun _ => seeds_buildStreamingInputs
    rw [heq]
    refine (seeds_put ?_ _).bind fun _ => hrest
    simp only [legacyStateKey, legacyRunRoot, String.append_assoc]
    exact startsWith_append _ _

theorem parse_of_managerBootstrap (h : managerBootstrap L env cfg w = .ok r w') :
    ∃ parts, parseUri (joinUri w'.bucket.name (legacyManifestConfigKey cfg.runId)) = .ok parts := by
  have hbuild : ∃ w₁, buildStreamingInputs L cfg.runId w₁ = .ok r w' := by
    cases hc : cfg.stressEmit && bootstrapArtifactsPresent cfg w.bucket with
    | true =>
      obtain ⟨hstress, hpresent⟩ := Bool.and_eq_true_iff.mp hc
      exact ⟨w, managerBootstrap_attached hstress hpresent ▸ h⟩
    | false =>
      obtain ⟨_, w₁, -, hbuild⟩ := bind_eq_ok.mp (managerBootstrap_seeding hc ▸ h)
      exact ⟨w₁, hbuild⟩
  obtain ⟨w₁, hbuild⟩ := hbuild
  have hname := ((reads_buildStreamingInputs L cfg.runId w₁).of_ok hbuild).bucket
  rw [hname]
  exact parse_of_buildStreamingInputs hbuild

theorem parse_legacyStateKey {bucket runId : String}
    (h : ∃ parts, parseUri (joinUri bucket (legacyManifestConfigKey runId)) = .ok parts) :
    ∃ parts, parseUri (joinUri bucket (legacyStateKey runId)) = .ok parts := by
  refine parseUri_joinUri_of_parse ?_ ?_ h
  · simp [legacyStateKey, legacyRunRoot]
  · simp [legacyStateKey, legacyManifestConfigKey, legacyRunRoot]

theorem written_grows
    (hparse : ∃ parts, parseUri (joinUri w.bucket.name (legacyStateKey cfg.runId)) = .ok parts)
    (h : (cfg.stressEmit && bootstrapArtifactsPresent cfg w.bucket) = false) :
    w.written ++ [joinUri w.bucket.name (legacyStateKey cfg.runId)] <+:
      (after (managerBootstrap L env cfg) w).written := by
  obtain ⟨rest, hrest, heq⟩ := seeds_bootstrap_rest L env cfg.runId cfg.maxEpochs
  have hends : Ends (bootstrap L env cfg.runId cfg.maxEpochs >>= fun _ =>
      buildStreamingInputs L cfg.runId) w fun _ t =>
        w.written ++ [joinUri w.bucket.name (legacyStateKey cfg.runId)] <+: t.written := by
    rw [heq, bind_assoc]
    refine ends_bind (fun _ t hput => ?_) fun e t hput => ?_
    · obtain ⟨-, rfl⟩ := put_eq_ok.mp hput
      exact (hrest.bind fun _ => seeds_buildStreamingInputs) _ |>.mono fun _ _ hs => hs.written
    · rw [(put_eq_ok (r := ⟨⟩)).mpr ⟨hparse, rfl⟩] at hput
      cases hput
  obtain ⟨_, hwritten⟩ := hends.after
  rw [after, managerBootstrap_seeding h]
  exact hwritten

/-- A second manager that attaches to a run writes nothing exactly if the probed object exists,
and then the bucket stays as it is. -/
theorem attach_writes_nothing_iff {first second : BootstrapConfig}
    {env₁ env₂ : String → Option String} {w₀ w₁ : TaskWorld β}
    (hfirst : managerBootstrap L env₁ first w₀ = .ok r w₁)
    (hrun : second.runId = first.runId) (hname : w.bucket.name = w₁.bucket.name)
    (hstress : second.stressEmit = true) (hskip : second.stressSkipBootstrapIfPresent = true) :
    ((after (managerBootstrap L env₂ second) w).written = w.written ↔
      w.bucket.exists (manifestUri second w.bucket) = .ok true) ∧
    (w.bucket.exists (manifestUri second w.bucket) = .ok true →
      (after (managerBootstrap L env₂ second) w).bucket = w.bucket) := by
  have hattached : w.bucket.exists (manifestUri second w.bucket) = .ok true →
      Reads w (after (managerBootstrap L env₂ second) w) := by
    intro hexists
    have hpresent := bootstrapArtifactsPresent_eq_true.mpr ⟨hskip, hexists⟩
    obtain ⟨_, hreads⟩ := (reads_buildStreamingInputs L second.runId w).after
    rw [after, managerBootstrap_attached hstress hpresent]
    exact hreads
  refine ⟨⟨fun hwritten => ?_, fun hexists => (hattached hexists).written⟩,
    fun hexists => (hattached hexists).bucket⟩
  by_contra hexists
  have hseeding : (second.stressEmit && bootstrapArtifactsPresent second w.bucket) = false := by
    rw [hstress, Bool.true_and, ← Bool.not_eq_true, bootstrapArtifactsPresent_eq_true]
    exact fun h => hexists h.2
  have hparse : ∃ parts,
      parseUri (joinUri w.bucket.name (legacyStateKey second.runId)) = .ok parts := by
    rw [hname, hrun]
    exact parse_legacyStateKey (parse_of_managerBootstrap hfirst)
  have hgrows : w.written ++ [joinUri w.bucket.name (legacyStateKey second.runId)] <+:
      (after (managerBootstrap L env₂ second) w).written := written_grows hparse hseeding
  rw [hwritten] at hgrows
  have hlength := hgrows.length_le
  rw [List.length_append, List.length_singleton] at hlength
  omega

def widthLibraries : TaskLibraries Json where
  platform := plainPlatform
  makeUk := fun d _ _ => .ok (.int d)
  tokEmb := fun h => .ok (.int h.d)
  initialBlob := fun h _ => .ok (.int h.d)
  randomTokens := fun n _ => .ok (.int n)
  buildStage := fun _ _ _ stage _ => .ok { stageId := stage, forwardGraph := {} }

def smallModel : String → Option String
  | "GPT_PIPE_D" => some "8"
  | "GPT_PIPE_N_STAGES" => some "1"
  | _ => none

def freshRun : TaskWorld Json where
  bucket := ⟨"b", .ofEntries []⟩

def stageWidth (b : Bucket Json) : Option ℤ :=
  match b.objects.find? (joinUri "b" (stageWeightsKey "r" 0)) with
  | some (.int d) => some d
  | _ => none

def attaching : BootstrapConfig where
  netuid := 0
  runId := "r"
  maxEpochs := 10
  stressEmit := true

def attachTo (b : Bucket Json) : TaskWorld Json :=
  after (managerBootstrap widthLibraries (fun _ => none) attaching) { bucket := b }

def starting : BootstrapConfig where
  netuid := 0
  runId := "r"

def firstStart : Option (Bucket Json) :=
  match managerBootstrap widthLibraries smallModel starting freshRun with
  | .ok _ w => some w.bucket
  | .error _ _ => none

theorem firstStart_completed : firstStart.isSome = true := by decide +kernel

/-- The second manager overwrites the state, the configuration and the weights of the run, with
weights of another width. -/
theorem attach_overwrites_run :
    firstStart.map (fun b => (stageWidth b, (attachTo b).written, stageWidth (attachTo b).bucket)) =
      some (some 8, ["s3://b/runs/r/state.json", "s3://b/runs/r/manifest/config.json",
        "s3://b/runs/r/weights/epoch=0/stage_0_W.bin",
        "s3://b/runs/r/weights/epoch=0/stage_1_W.bin",
        "s3://b/runs/r/weights/epoch=0/stage_2_W.bin",
        "s3://b/runs/r/weights/epoch=0/stage_3_W.bin"], some 384) := by
  decide +kernel

/-- With an object under the probed key the attached run is left as it is. -/
theorem attached_run_untouched :
    ∃ r w₁, managerBootstrap widthLibraries smallModel starting freshRun = .ok r w₁ ∧
      ∀ b : Bucket Json, b = { w₁.bucket with
          objects := w₁.bucket.objects.insert (joinUri "b" (manifestConfigKey 0 "r")) .null } →
        (attachTo b).written = [] ∧ (attachTo b).bucket = b := by
  have hfirst := firstStart_completed
  unfold firstStart at hfirst
  split at hfirst
  case h_2 => cases hfirst
  case h_1 r w₁ hrun =>
    refine ⟨r, w₁, hrun, fun b hb => ?_⟩
    have hname : w₁.bucket.name = "b" := ((seeds_managerBootstrap freshRun).of_ok hrun).name
    have hbname : b.name = "b" := by rw [hb, ← hname]
    have hexists : b.exists (manifestUri attaching b) = .ok true := by
      rw [manifestUri, Bucket.uriForKey, hbname, Bucket.exists_eq_true]
      refine ⟨parseUri_joinUri.mpr (by decide +kernel), ?_⟩
      rw [hb]
      change (SortedDict.insert _ (joinUri "b" (manifestConfigKey 0 "r")) Json.null).find? _ ≠ none
      rw [SortedDict.find?_insert]
      exact nofun
    have hattach : ((attachTo b).written = [] ↔ b.exists (manifestUri attaching b) = .ok true) ∧
        (b.exists (manifestUri attaching b) = .ok true → (attachTo b).bucket = b) :=
      attach_writes_nothing_iff hrun rfl (hbname.trans hname.symm) rfl rfl
    exact ⟨hattach.1.mpr hexists, hattach.2 hexists⟩

end Attaching

end StressAttach
