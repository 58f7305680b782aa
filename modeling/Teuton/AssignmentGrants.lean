import Teuton.BucketPaths
import Teuton.ObjectStore
import Teuton.Protocol

/-! Assignment grants. A manager that does not give its miners direct access to the bucket mints
one presigned URL for each object that a job reads or writes, seals the list for the assigned
hotkey and stores it next to the job. Minting and sealing are services of the environment. -/
namespace AssignmentGrants

open PyJson PyText Signatures ObjectStore Protocol

variable {β : Type}

structure PresignedUrlGrant where
  method : String
  canonicalUri : String
  url : String
  expiresUnix : ℤ
  contentSha256 : Option String := none

structure AssignmentGrantV3 where
  jobId : String
  runId : String
  assignedHotkey : String
  inputGets : List PresignedUrlGrant := []
  outputPuts : List PresignedUrlGrant := []
  receiptPut : Option PresignedUrlGrant := none
  createdUnix : ℤ := 0
  expiresUnix : ℤ := 0
  schemaVersion : ℤ := 1

/-- The presigning broker, with the encryption of a grant for its recipient. Each may raise. -/
structure GrantBroker where
  getGrant : String → ℤ → Py PresignedUrlGrant
  putGrant : String → ℤ → Py PresignedUrlGrant
  encryptForHotkey : AssignmentGrantV3 → String → Py Json

/-- The objects a grant is minted for; the list of outputs is computed on the way. -/
structure GrantedUris where
  gets : List String
  puts : Py (List String)
  receipt : Option String

def mintGrant (broker : GrantBroker) (ttl now : ℤ) (manifest : JobManifestV3)
    (uris : GrantedUris) : Py AssignmentGrantV3 := do
  let inputGets ← uris.gets.mapM fun uri => broker.getGrant uri ttl
  let outputPuts ← (← uris.puts).mapM fun uri => broker.putGrant uri ttl
  let receiptPut ← uris.receipt.mapM fun uri => broker.putGrant uri ttl
  return {
    jobId := manifest.jobId
    runId := manifest.runId
    assignedHotkey := manifest.assignedHotkey
    inputGets := inputGets
    outputPuts := outputPuts
    receiptPut := receiptPut
    createdUnix := now
    expiresUnix := now + ttl }

def storeGrant (p : Platform β) (broker : GrantBroker) (ttl now : ℤ) (manifest : JobManifestV3)
    (uris : GrantedUris) (grantUri : String) (b : Bucket β) : Py (Bucket β) := do
  let grant ← mintGrant broker ttl now manifest uris
  let encrypted ← broker.encryptForHotkey grant manifest.assignedHotkey
  b.putJson p grantUri encrypted

def shardUri (uri : String) (rank : ℕ) : String :=
  let base := if endsWith uri ".json" then String.ofList (uri.toList.take (uri.length - 5)) else uri
  base ++ ".rank" ++ toString rank ++ ".bin"

def shardGrantUris (sharding : Fields) (minGpus : ℤ) (ref : ArtifactRef) : Py (List String) := do
  let cfg := (field? ref.name sharding).getD .null
  if cfg.truthy then
    let worldSize ← (← cfg.get "world_size" (.int minGpus)).toInt
    return (List.range worldSize.toNat).map (shardUri ref.uri)
  else return []

def outputGrantUris (manifest : JobManifestV3) : Py (List String) := do
  let sharding ← ((field? "output_sharding" manifest.params).getD .null).fieldsOrEmpty
  let shards ← manifest.outputs.mapM
    (shardGrantUris sharding manifest.resourceRequirements.minGpus)
  return manifest.outputs.map ArtifactRef.uri ++ shards.flatten

end AssignmentGrants
