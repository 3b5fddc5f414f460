import ApiTypes.Options
import ApiTypes.Proofs.Tables

namespace ApiTypes

namespace Resolvers

variable {rs : Resolvers} {url : String} {r : Resolver}

end Resolvers

namespace Options

variable (o : Options) (inserts : List (String × Resolver)) (workDir : String)
variable (ds : List (String × Json))

end Options

end ApiTypes
