import ComponentDoc.Configuration.Loading
import ComponentDoc.Yaml.Reading

namespace ComponentDoc.Configuration

instance : Format := ⟨Yaml.read⟩

end ComponentDoc.Configuration
