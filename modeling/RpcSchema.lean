import RpcSchema.Files.Tree
import RpcSchema.Main
import RpcSchema.Proofs.Command.Layers
import RpcSchema.Proofs.Command.Writing
import RpcSchema.Proofs.Conversion.Convertible
import RpcSchema.Proofs.Conversion.Safety
import RpcSchema.Proofs.Conversion.Unfolding
import RpcSchema.Proofs.Manifest.Loading
import RpcSchema.Proofs.Manifest.Reordering
import RpcSchema.Proofs.Manifest.Rereading
import RpcSchema.Proofs.Package.Construction
import RpcSchema.Proofs.Pool.Chains
import RpcSchema.Proofs.Pool.Containment
import RpcSchema.Proofs.Pool.Reachability
import RpcSchema.Proofs.Proto.EnumBlocks
import RpcSchema.Proofs.Proto.FieldNames
import RpcSchema.Proofs.Proto.Mirror
import RpcSchema.Proofs.Proto.Oneof
import RpcSchema.Proofs.Proto.OptionValues
import RpcSchema.Proofs.Proto.Refusal
import RpcSchema.Proofs.Proto.ServiceName
import RpcSchema.Proofs.TypeExpr.Cursor
