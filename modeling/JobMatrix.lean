import JobMatrix.Main
import JobMatrix.Text.EnvironmentName
import JobMatrix.World
import JobMatrix.Proofs.Files.Atomicity
import JobMatrix.Proofs.Gitlab.Key
import JobMatrix.Proofs.Gitlab.Quote
import JobMatrix.Proofs.Gitlab.Unloadable
import JobMatrix.Proofs.Job.CudaTag
import JobMatrix.Proofs.Job.Edits
import JobMatrix.Proofs.Job.Image
import JobMatrix.Proofs.Job.Layers
import JobMatrix.Proofs.Json.Matrix
import JobMatrix.Proofs.Pipeline.Arrangement
import JobMatrix.Proofs.Pipeline.Duplicates
import JobMatrix.Proofs.Pipeline.Stages
import JobMatrix.Proofs.Recording
